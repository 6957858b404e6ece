import P2PRdt.Lib.FoldMemory
import Mathlib.Data.Fintype.Pi
import Mathlib.Data.Set.Countable

/-!
# The full inference state and the connections that share it

`FullInferenceState` keeps the last `T` frames, actions and text embeddings. It
fills the first free step as long as there is one, and rolls the three
histories by one step after that. The server has one such state: the warm-up
and every connection in turn work on it, and `reset`, which is called before
each of them, does nothing.

The policy model, the tokenizer and the action mapping are pure functions, and
a request carries what is drawn at random for it. There is no batch dimension.
-/

namespace P2PRdt.Inference

open Lib

structure FullInferenceConfig where
  nSeqTimesteps : ℕ
  numberOfKeyboardActions : ℕ
  numberOfMouseButtonActions : ℕ
  nSeqTimesteps_pos : 0 < nSeqTimesteps

/-- The two deltas are one token each. -/
def FullInferenceConfig.seqLen (cfg : FullInferenceConfig) : ℕ :=
  cfg.numberOfKeyboardActions + cfg.numberOfMouseButtonActions + 2

abbrev FullInferenceConfig.Step (cfg : FullInferenceConfig) := Fin cfg.nSeqTimesteps

/-- The token that one round of the sampling loop is about. -/
inductive TokenSlot (cfg : FullInferenceConfig) where
  | key (i : Fin cfg.numberOfKeyboardActions)
  | mouseButton (i : Fin cfg.numberOfMouseButtonActions)
  | mouseDeltaX
  | mouseDeltaY
deriving DecidableEq

def FullInferenceConfig.slot (cfg : FullInferenceConfig) (i : ℕ) : TokenSlot cfg :=
  if hkey : i < cfg.numberOfKeyboardActions then .key ⟨i, hkey⟩
  else if hbutton : i < cfg.numberOfKeyboardActions + cfg.numberOfMouseButtonActions then
    .mouseButton ⟨i - cfg.numberOfKeyboardActions, by omega⟩
  else if i < cfg.numberOfKeyboardActions + cfg.numberOfMouseButtonActions + 1 then .mouseDeltaX
  else .mouseDeltaY

/-- No two rounds are about the same token. -/
theorem FullInferenceConfig.slot_injective {cfg : FullInferenceConfig} {i j : ℕ}
    (hi : i < cfg.seqLen) (hj : j < cfg.seqLen) (h : cfg.slot i = cfg.slot j) : i = j := by
  unfold seqLen at hi hj
  unfold slot at h
  split at h <;> split at h <;> grind

/-- The tokens of the action of one step. -/
structure ActionTokens (cfg : FullInferenceConfig) where
  keys : Fin cfg.numberOfKeyboardActions → ℕ
  mouseButtons : Fin cfg.numberOfMouseButtonActions → ℕ
  mouseDeltaX : ℕ
  mouseDeltaY : ℕ
deriving DecidableEq

namespace ActionTokens

variable {cfg : FullInferenceConfig}

/-- All tokens have this value. -/
def const (value : ℕ) : ActionTokens cfg := ⟨fun _ => value, fun _ => value, value, value⟩

/-- One step of `make_empty_action`. -/
def empty : ActionTokens cfg := const 0

def token (row : ActionTokens cfg) : TokenSlot cfg → ℕ
  | .key i => row.keys i
  | .mouseButton i => row.mouseButtons i
  | .mouseDeltaX => row.mouseDeltaX
  | .mouseDeltaY => row.mouseDeltaY

def setToken (row : ActionTokens cfg) (value : ℕ) : TokenSlot cfg → ActionTokens cfg
  | .key i => { row with keys := Function.update row.keys i value }
  | .mouseButton i => { row with mouseButtons := Function.update row.mouseButtons i value }
  | .mouseDeltaX => { row with mouseDeltaX := value }
  | .mouseDeltaY => { row with mouseDeltaY := value }

instance : Countable (ActionTokens cfg) := by
  apply Function.Injective.countable
    (f := fun row => (row.keys, row.mouseButtons, row.mouseDeltaX, row.mouseDeltaY))
  rintro ⟨keys, buttons, x, y⟩ ⟨keys', buttons', x', y'⟩ h
  simp only [Prod.mk.injEq] at h
  rcases h with ⟨rfl, rfl, rfl, rfl⟩
  rfl

@[simp] theorem token_const (value : ℕ) (slot : TokenSlot cfg) :
    (const value : ActionTokens cfg).token slot = value := by
  cases slot <;> rfl

@[simp] theorem token_setToken_self (row : ActionTokens cfg) (value : ℕ) (slot : TokenSlot cfg) :
    (row.setToken value slot).token slot = value := by
  cases slot <;> simp [setToken, token]

theorem token_setToken_of_ne (row : ActionTokens cfg) (value : ℕ) {slot slot' : TokenSlot cfg}
    (h : slot' ≠ slot) : (row.setToken value slot).token slot' = row.token slot' := by
  cases slot <;> cases slot' <;> simp_all [setToken, token]

end ActionTokens

/-- The model and the action mapping; the mapping draws with
`mouse_sampling_approach`. -/
structure PolicyFunctions (cfg : FullInferenceConfig) (φ ε δ α : Type) where
  onlineFullPredict : (cfg.Step → φ) → (cfg.Step → ActionTokens cfg) → (cfg.Step → ε) → δ →
    cfg.Step → ActionTokens cfg
  tensorToAction : ActionTokens cfg → δ → α

/-- A frame, the text at that time, and the draws: one for each round of the
sampling loop and one for the mapping. -/
structure Request (φ τ δ : Type) where
  frame : φ
  text : Option τ
  draw : ℕ → δ

section Tokenizer

variable {τ ε : Type} [Zero ε]

/-- `_encode_text_tokens_for_inference`. -/
def encodeTextTokens (textTokenizerModel : Option (τ → ε)) (text : Option τ) : ε :=
  match textTokenizerModel, text with
  | some tokenize, some text => tokenize text
  | _, _ => 0

theorem encodeTextTokens_eq_zero {textTokenizerModel : Option (τ → ε)} {text : Option τ}
    (h : ¬ (textTokenizerModel.isSome ∧ text.isSome)) :
    encodeTextTokens textTokenizerModel text = 0 := by
  cases textTokenizerModel with
  | none => rfl
  | some tokenize =>
      cases text with
      | none => rfl
      | some text => exact absurd ⟨rfl, rfl⟩ h

end Tokenizer

@[ext]
structure FullInferenceState (cfg : FullInferenceConfig) (φ ε : Type) where
  frameIn : cfg.Step → φ
  actionIn : cfg.Step → ActionTokens cfg
  textTokensEmbed : cfg.Step → ε
  nPriorFrames : ℕ
  nPriorFrames_le : nPriorFrames ≤ cfg.nSeqTimesteps

namespace FullInferenceState

variable {cfg : FullInferenceConfig} {φ τ ε δ α : Type}

def init [Zero φ] [Zero ε] : FullInferenceState cfg φ ε where
  frameIn := fun _ => 0
  actionIn := fun _ => .empty
  textTokensEmbed := fun _ => 0
  nPriorFrames := 0
  nPriorFrames_le := Nat.zero_le _

def reset (s : FullInferenceState cfg φ ε) : FullInferenceState cfg φ ε := s

/-- The step `n_prior_frames - 1`. -/
def current (s : FullInferenceState cfg φ ε) : cfg.Step :=
  ⟨s.nPriorFrames - 1, by have := s.nPriorFrames_le; have := cfg.nSeqTimesteps_pos; omega⟩

/-- `torch.roll(x, -1, dims=1)`. -/
def roll {β : Type} (x : cfg.Step → β) : cfg.Step → β :=
  fun t => x ⟨(t + 1) % cfg.nSeqTimesteps, Nat.mod_lt _ cfg.nSeqTimesteps_pos⟩

def last : cfg.Step := ⟨cfg.nSeqTimesteps - 1, Nat.sub_lt cfg.nSeqTimesteps_pos Nat.one_pos⟩

/-- The first half of `get_action`: the new frame and its text. In the filling
phase a request without a text leaves the step as it is. -/
def insert [Zero ε] (textTokenizerModel : Option (τ → ε)) (s : FullInferenceState cfg φ ε)
    (req : Request φ τ δ) : FullInferenceState cfg φ ε :=
  if hfree : s.nPriorFrames < cfg.nSeqTimesteps then
    { frameIn := Function.update s.frameIn ⟨s.nPriorFrames, hfree⟩ req.frame
      actionIn := s.actionIn
      textTokensEmbed :=
        if textTokenizerModel.isSome ∧ req.text.isSome then
          Function.update s.textTokensEmbed ⟨s.nPriorFrames, hfree⟩
            (encodeTextTokens textTokenizerModel req.text)
        else s.textTokensEmbed
      nPriorFrames := s.nPriorFrames + 1
      nPriorFrames_le := hfree }
  else
    { frameIn := Function.update (roll s.frameIn) last req.frame
      actionIn := roll s.actionIn
      textTokensEmbed := Function.update (roll s.textTokensEmbed) last
        (encodeTextTokens textTokenizerModel req.text)
      nPriorFrames := s.nPriorFrames
      nPriorFrames_le := s.nPriorFrames_le }

/-- One round: the model runs on all the histories, and one token is kept. -/
def sampleToken (policy : PolicyFunctions cfg φ ε δ α) (draw : ℕ → δ)
    (s : FullInferenceState cfg φ ε) (i : ℕ) : FullInferenceState cfg φ ε :=
  let action := policy.onlineFullPredict s.frameIn s.actionIn s.textTokensEmbed (draw i)
  { s with
    actionIn := Function.update s.actionIn s.current
      ((s.actionIn s.current).setToken ((action s.current).token (cfg.slot i)) (cfg.slot i)) }

def sampleTokens (policy : PolicyFunctions cfg φ ε δ α) (draw : ℕ → δ)
    (s : FullInferenceState cfg φ ε) (n : ℕ) : FullInferenceState cfg φ ε :=
  (List.range n).foldl (sampleToken policy draw) s

section Server

variable [Zero ε] (policy : PolicyFunctions cfg φ ε δ α) (textTokenizerModel : Option (τ → ε))

/-- The state that `get_action` leaves. -/
def afterRequest (s : FullInferenceState cfg φ ε) (req : Request φ τ δ) :
    FullInferenceState cfg φ ε :=
  sampleTokens policy req.draw (s.insert textTokenizerModel req) cfg.seqLen

def getAction (s : FullInferenceState cfg φ ε) (req : Request φ τ δ) :
    FullInferenceState cfg φ ε × α :=
  let s' := s.afterRequest policy textTokenizerModel req
  (s', policy.tensorToAction (s'.actionIn s'.current) (req.draw cfg.seqLen))

def getActions (s : FullInferenceState cfg φ ε) :
    List (Request φ τ δ) → FullInferenceState cfg φ ε × List α
  | [] => (s, [])
  | req :: reqs =>
      let (s', action) := s.getAction policy textTokenizerModel req
      let (s'', actions) := s'.getActions reqs
      (s'', action :: actions)

/-- One connection of `_handle_requests`, and in the same way `fps_test`. -/
def handleRequests (s : FullInferenceState cfg φ ε) (reqs : List (Request φ τ δ)) :
    FullInferenceState cfg φ ε × List α :=
  s.reset.getActions policy textTokenizerModel reqs

/-- The state of the server after the warm-up and the connections of `history`. -/
def serve [Zero φ] (history : List (List (Request φ τ δ))) : FullInferenceState cfg φ ε :=
  history.foldl (fun s reqs => (s.handleRequests policy textTokenizerModel reqs).1) init

end Server

/-! ## The sampling loop -/

section Sampling

variable (policy : PolicyFunctions cfg φ ε δ α) (draw : ℕ → δ) (s : FullInferenceState cfg φ ε)

theorem sampleTokens_succ (n : ℕ) :
    sampleTokens policy draw s (n + 1) =
      sampleToken policy draw (sampleTokens policy draw s n) n := by
  rw [sampleTokens, List.range_succ, List.foldl_append]
  rfl

theorem sampleTokens_frame (n : ℕ) :
    (sampleTokens policy draw s n).frameIn = s.frameIn ∧
      (sampleTokens policy draw s n).textTokensEmbed = s.textTokensEmbed ∧
      (sampleTokens policy draw s n).nPriorFrames = s.nPriorFrames := by
  induction n with
  | zero => exact ⟨rfl, rfl, rfl⟩
  | succ n ih =>
      rw [sampleTokens_succ]
      exact ih

@[simp] theorem frameIn_sampleTokens (n : ℕ) :
    (sampleTokens policy draw s n).frameIn = s.frameIn :=
  (sampleTokens_frame policy draw s n).1

@[simp] theorem textTokensEmbed_sampleTokens (n : ℕ) :
    (sampleTokens policy draw s n).textTokensEmbed = s.textTokensEmbed :=
  (sampleTokens_frame policy draw s n).2.1

@[simp] theorem nPriorFrames_sampleTokens (n : ℕ) :
    (sampleTokens policy draw s n).nPriorFrames = s.nPriorFrames :=
  (sampleTokens_frame policy draw s n).2.2

@[simp] theorem current_sampleTokens (n : ℕ) :
    (sampleTokens policy draw s n).current = s.current := by
  apply Fin.ext
  simp [current]

theorem sampleTokens_congr {draw draw' : ℕ → δ} {n : ℕ} (h : ∀ i < n, draw i = draw' i) :
    sampleTokens policy draw s n = sampleTokens policy draw' s n := by
  induction n with
  | zero => rfl
  | succ n ih =>
      rw [sampleTokens_succ, sampleTokens_succ, ih fun i hi => h i (Nat.lt_succ_of_lt hi)]
      unfold sampleToken
      rw [h n (Nat.lt_succ_self n)]

/-- What one round leaves in the row of the current step. -/
theorem token_sampleToken (i : ℕ) (slot : TokenSlot cfg) :
    ((sampleToken policy draw s i).actionIn s.current).token slot =
      if slot = cfg.slot i then
        ((policy.onlineFullPredict s.frameIn s.actionIn s.textTokensEmbed (draw i))
          s.current).token slot
      else (s.actionIn s.current).token slot := by
  by_cases hslot : slot = cfg.slot i
  · rw [if_pos hslot, hslot]
    simp [sampleToken]
  · rw [if_neg hslot]
    simp [sampleToken, ActionTokens.token_setToken_of_ne _ _ hslot]

/-- The token of round `i` is the one the model predicts with the tokens of the
rounds before it. -/
theorem token_sampleTokens {i n : ℕ} (hi : i < n) (hn : n ≤ cfg.seqLen) :
    ((sampleTokens policy draw s n).actionIn s.current).token (cfg.slot i) =
      ((policy.onlineFullPredict s.frameIn (sampleTokens policy draw s i).actionIn
        s.textTokensEmbed (draw i)) s.current).token (cfg.slot i) := by
  induction n with
  | zero => exact absurd hi (Nat.not_lt_zero i)
  | succ n ih =>
      have hround := token_sampleToken policy draw (sampleTokens policy draw s n) n (cfg.slot i)
      simp only [current_sampleTokens, frameIn_sampleTokens, textTokensEmbed_sampleTokens] at hround
      rw [sampleTokens_succ, hround]
      by_cases heq : i = n
      · rw [if_pos (by rw [heq]), heq]
      · -- the later rounds are about other tokens
        have hlt : i < n := by omega
        have hslot : cfg.slot i ≠ cfg.slot n := fun h =>
          heq (FullInferenceConfig.slot_injective (by omega) hn h)
        rw [if_neg hslot]
        exact ih hlt (by omega)

end Sampling

/-! ## One state for all connections -/

section Server

variable [Zero ε] (policy : PolicyFunctions cfg φ ε δ α) (textTokenizerModel : Option (τ → ε))

theorem getActions_fst (s : FullInferenceState cfg φ ε) (reqs : List (Request φ τ δ)) :
    (s.getActions policy textTokenizerModel reqs).1 =
      reqs.foldl (fun s req => s.afterRequest policy textTokenizerModel req) s := by
  induction reqs generalizing s with
  | nil => rfl
  | cons req reqs ih => exact ih _

/-- One session from the start. -/
def afterRequests [Zero φ] (reqs : List (Request φ τ δ)) : FullInferenceState cfg φ ε :=
  reqs.foldl (fun s req => s.afterRequest policy textTokenizerModel req) init

/-- `reset` leaves no trace: the sessions of the server are one long session. -/
theorem serve_eq [Zero φ] (history : List (List (Request φ τ δ))) :
    serve policy textTokenizerModel history =
      afterRequests policy textTokenizerModel history.flatten := by
  rw [afterRequests, List.foldl_flatten, serve]
  congr 1
  funext s reqs
  exact getActions_fst policy textTokenizerModel s reqs

/-- What a request leaves behind: its frame, its text as the model sees it, and
what the model draws for it. -/
def seen (cfg : FullInferenceConfig) (req : Request φ τ δ) : φ × ε × (Fin cfg.seqLen → δ) :=
  (req.frame, encodeTextTokens textTokenizerModel req.text, fun i => req.draw i)

/-- The steps that no frame has filled yet have the zero embedding. -/
def Unfilled (s : FullInferenceState cfg φ ε) : Prop :=
  ∀ t : cfg.Step, s.nPriorFrames ≤ t → s.textTokensEmbed t = 0

/-- There a request without a text leaves the embedding of no text. -/
theorem textTokensEmbed_insert {s : FullInferenceState cfg φ ε} (h : s.Unfilled)
    (req : Request φ τ δ) (hfree : s.nPriorFrames < cfg.nSeqTimesteps) :
    (s.insert textTokenizerModel req).textTokensEmbed =
      Function.update s.textTokensEmbed ⟨s.nPriorFrames, hfree⟩
        (encodeTextTokens textTokenizerModel req.text) := by
  rw [insert, dif_pos hfree]
  dsimp only
  split
  · rfl
  · rename_i hnone
    rw [encodeTextTokens_eq_zero hnone, ← h ⟨s.nPriorFrames, hfree⟩ le_rfl,
      Function.update_eq_self]

theorem Unfilled.afterRequest {s : FullInferenceState cfg φ ε} (h : s.Unfilled)
    (req : Request φ τ δ) : (s.afterRequest policy textTokenizerModel req).Unfilled := by
  intro t ht
  simp only [FullInferenceState.afterRequest, nPriorFrames_sampleTokens,
    textTokensEmbed_sampleTokens] at ht ⊢
  by_cases hfree : s.nPriorFrames < cfg.nSeqTimesteps
  · have hnext : s.nPriorFrames + 1 ≤ t := by
      simpa [insert, hfree] using ht
    have hne : t ≠ ⟨s.nPriorFrames, hfree⟩ := by
      intro heq
      rw [heq] at hnext
      exact absurd hnext (Nat.not_succ_le_self _)
    rw [textTokensEmbed_insert textTokenizerModel h req hfree, Function.update_of_ne hne]
    exact h t (Nat.le_of_succ_le hnext)
  · -- after the filling there is no such step
    have hfull : s.nPriorFrames ≤ t := by
      simpa [insert, hfree] using ht
    exact absurd (Nat.lt_of_le_of_lt hfull t.isLt) hfree

theorem unfilled_init [Zero φ] : (init : FullInferenceState cfg φ ε).Unfilled := by
  intro t ht
  rfl

theorem afterRequests_concat [Zero φ] (reqs : List (Request φ τ δ)) (req : Request φ τ δ) :
    (afterRequests policy textTokenizerModel (reqs ++ [req]) : FullInferenceState cfg φ ε) =
      (afterRequests policy textTokenizerModel reqs).afterRequest policy textTokenizerModel
        req := by
  rw [afterRequests, List.foldl_append]
  rfl

theorem unfilled_afterRequests [Zero φ] (reqs : List (Request φ τ δ)) :
    (afterRequests policy textTokenizerModel reqs : FullInferenceState cfg φ ε).Unfilled := by
  induction reqs using List.reverseRecOn with
  | nil => exact unfilled_init
  | append_singleton reqs req ih =>
      rw [afterRequests_concat]
      exact ih.afterRequest policy textTokenizerModel req

theorem insert_congr {s : FullInferenceState cfg φ ε} (h : s.Unfilled) {req req' : Request φ τ δ}
    (hframe : req.frame = req'.frame)
    (htext : encodeTextTokens textTokenizerModel req.text =
      encodeTextTokens textTokenizerModel req'.text) :
    s.insert textTokenizerModel req = s.insert textTokenizerModel req' := by
  by_cases hfree : s.nPriorFrames < cfg.nSeqTimesteps
  · ext1
    · simp only [insert, dif_pos hfree, hframe]
    · simp only [insert, dif_pos hfree]
    · rw [textTokensEmbed_insert textTokenizerModel h req hfree,
        textTokensEmbed_insert textTokenizerModel h req' hfree, htext]
    · simp only [insert, dif_pos hfree]
  · simp only [insert, dif_neg hfree, hframe, htext]

theorem afterRequest_congr {s : FullInferenceState cfg φ ε} (h : s.Unfilled)
    {req req' : Request φ τ δ}
    (hseen : seen textTokenizerModel cfg req = seen textTokenizerModel cfg req') :
    s.afterRequest policy textTokenizerModel req =
      s.afterRequest policy textTokenizerModel req' := by
  simp only [seen, Prod.mk.injEq] at hseen
  rcases hseen with ⟨hframe, htext, hdraw⟩
  unfold FullInferenceState.afterRequest
  rw [insert_congr textTokenizerModel h hframe htext]
  exact sampleTokens_congr policy _ fun i hi => congrFun hdraw ⟨i, hi⟩

/-- The two histories that leave the same behind leave the same state. -/
theorem serve_congr [Zero φ] {history history' : List (List (Request φ τ δ))}
    (h : history.flatten.map (seen textTokenizerModel cfg) =
      history'.flatten.map (seen textTokenizerModel cfg)) :
    serve policy textTokenizerModel history = serve policy textTokenizerModel history' := by
  rw [serve_eq, serve_eq]
  refine foldl_eq_of_map_eq (I := Unfilled) ?_ ?_ ?_ h
  · intro s req hs
    exact hs.afterRequest policy textTokenizerModel req
  · intro s req req' hs hseen
    exact afterRequest_congr policy textTokenizerModel hs hseen
  · exact unfilled_init

end Server

/-! ## A model that forgets nothing -/

/-- The step before this one, and for the first step the step itself. -/
def before (t : cfg.Step) : cfg.Step := ⟨t - 1, Nat.lt_of_le_of_lt (Nat.sub_le t 1) t.isLt⟩

/-- The row of the newest action. -/
def lastRow (s : FullInferenceState cfg φ ε) : ActionTokens cfg := s.actionIn s.current

/-- Numbers for what a model sees at one step. -/
structure Codes (cfg : FullInferenceConfig) (φ ε δ : Type) where
  frame : φ → ℕ
  text : ε → ℕ
  draw : δ → ℕ
  pair : ℕ × ℕ × ℕ × ActionTokens cfg → ℕ
  pair_injective : Function.Injective pair

/-- This model predicts the code of all that it sees at the step and of the row
before it, as every token of the step. -/
def fingerprint (codes : Codes cfg φ ε δ) : PolicyFunctions cfg φ ε δ (ActionTokens cfg) where
  onlineFullPredict frames actions texts draw t :=
    .const (codes.pair
      (codes.frame (frames t), codes.text (texts t), codes.draw draw, actions (before t)) + 1)
  tensorToAction row _ := row

variable (cfg) in
theorem exists_codes {frames : Set φ} {texts : Set ε} {draws : Set δ} (hframes : frames.Countable)
    (htexts : texts.Countable) (hdraws : draws.Countable) :
    ∃ codes : Codes cfg φ ε δ, Set.InjOn codes.frame frames ∧ Set.InjOn codes.text texts ∧
      Set.InjOn codes.draw draws := by
  obtain ⟨frame, hframe⟩ := Set.countable_iff_exists_injOn.mp hframes
  obtain ⟨text, htext⟩ := Set.countable_iff_exists_injOn.mp htexts
  obtain ⟨draw, hdraw⟩ := Set.countable_iff_exists_injOn.mp hdraws
  obtain ⟨pair, hpair⟩ := Countable.exists_injective_nat (ℕ × ℕ × ℕ × ActionTokens cfg)
  exact ⟨⟨frame, text, draw, pair, hpair⟩, hframe, htext, hdraw⟩

section Fingerprint

variable [Zero ε] {textTokenizerModel : Option (τ → ε)}

/-- The new step comes right after the newest action. -/
theorem actionIn_insert_before (s : FullInferenceState cfg φ ε) (req : Request φ τ δ) :
    (s.insert textTokenizerModel req).actionIn
      (before (s.insert textTokenizerModel req).current) = s.lastRow := by
  by_cases hfree : s.nPriorFrames < cfg.nSeqTimesteps
  · simp only [insert, dif_pos hfree, lastRow]
    rfl
  · have hfull : s.nPriorFrames = cfg.nSeqTimesteps :=
      Nat.le_antisymm s.nPriorFrames_le (Nat.le_of_not_lt hfree)
    simp only [insert, dif_neg hfree, lastRow, roll]
    congr 1
    apply Fin.ext
    simp only [before, current, hfull]
    have hpos := cfg.nSeqTimesteps_pos
    by_cases hone : cfg.nSeqTimesteps = 1
    · simp [hone]
    · rw [Nat.mod_eq_of_lt] <;> omega

theorem current_insert_of_lt (s : FullInferenceState cfg φ ε) (req : Request φ τ δ)
    (hfree : s.nPriorFrames < cfg.nSeqTimesteps) :
    (s.insert textTokenizerModel req).current = ⟨s.nPriorFrames, hfree⟩ := by
  apply Fin.ext
  simp [current, insert, hfree]

theorem current_insert_of_not_lt (s : FullInferenceState cfg φ ε) (req : Request φ τ δ)
    (hfree : ¬ s.nPriorFrames < cfg.nSeqTimesteps) :
    (s.insert textTokenizerModel req).current = last := by
  have hfull : s.nPriorFrames = cfg.nSeqTimesteps :=
    Nat.le_antisymm s.nPriorFrames_le (Nat.le_of_not_lt hfree)
  apply Fin.ext
  simp [current, insert, last, hfull]

theorem frameIn_insert (s : FullInferenceState cfg φ ε) (req : Request φ τ δ) :
    (s.insert textTokenizerModel req).frameIn (s.insert textTokenizerModel req).current =
      req.frame := by
  by_cases hfree : s.nPriorFrames < cfg.nSeqTimesteps
  · rw [current_insert_of_lt s req hfree]
    simp [insert, hfree]
  · rw [current_insert_of_not_lt s req hfree]
    simp [insert, hfree]

theorem textTokensEmbed_insert_current {s : FullInferenceState cfg φ ε} (h : s.Unfilled)
    (req : Request φ τ δ) :
    (s.insert textTokenizerModel req).textTokensEmbed
      (s.insert textTokenizerModel req).current = encodeTextTokens textTokenizerModel req.text := by
  by_cases hfree : s.nPriorFrames < cfg.nSeqTimesteps
  · rw [textTokensEmbed_insert textTokenizerModel h req hfree, current_insert_of_lt s req hfree,
      Function.update_self]
  · rw [current_insert_of_not_lt s req hfree]
    simp [insert, hfree]

/-- What the model sees of a request in round `i`. -/
def Codes.round (codes : Codes cfg φ ε δ) (textTokenizerModel : Option (τ → ε))
    (s : FullInferenceState cfg φ ε) (req : Request φ τ δ) (i : ℕ) : ℕ × ℕ × ℕ × ActionTokens cfg :=
  let s' := s.insert textTokenizerModel req
  (codes.frame req.frame, codes.text (encodeTextTokens textTokenizerModel req.text),
    codes.draw (req.draw i),
    (sampleTokens (fingerprint codes) req.draw s' i).actionIn (before s'.current))

theorem token_fingerprint (codes : Codes cfg φ ε δ) {s : FullInferenceState cfg φ ε}
    (h : s.Unfilled) (req : Request φ τ δ) {i : ℕ} (hi : i < cfg.seqLen) :
    ((s.afterRequest (fingerprint codes) textTokenizerModel req).lastRow).token (cfg.slot i) =
      codes.pair (codes.round textTokenizerModel s req i) + 1 := by
  unfold lastRow afterRequest
  rw [current_sampleTokens, token_sampleTokens _ _ _ hi le_rfl]
  simp only [fingerprint, ActionTokens.token_const, Codes.round]
  rw [frameIn_insert, textTokensEmbed_insert_current h]

/-- So the newest row tells what the request was, as far as the codes keep it
apart, and the row before it. -/
theorem fingerprint_back (codes : Codes cfg φ ε δ) {s s' : FullInferenceState cfg φ ε}
    (hs : s.Unfilled) (hs' : s'.Unfilled) {req req' : Request φ τ δ}
    (h : (s.afterRequest (fingerprint codes) textTokenizerModel req).lastRow =
      (s'.afterRequest (fingerprint codes) textTokenizerModel req').lastRow) :
    s.lastRow = s'.lastRow ∧ codes.frame req.frame = codes.frame req'.frame ∧
      codes.text (encodeTextTokens textTokenizerModel req.text) =
        codes.text (encodeTextTokens textTokenizerModel req'.text) ∧
      ∀ i < cfg.seqLen, codes.draw (req.draw i) = codes.draw (req'.draw i) := by
  have hround : ∀ i < cfg.seqLen,
      codes.round textTokenizerModel s req i = codes.round textTokenizerModel s' req' i := by
    intro i hi
    apply codes.pair_injective
    apply Nat.succ_injective
    rw [Nat.succ_eq_add_one, ← token_fingerprint codes hs req hi, h,
      token_fingerprint codes hs' req' hi]
  simp only [Codes.round, Prod.mk.injEq] at hround
  obtain ⟨hframe, htext, -, hrow⟩ := hround 0 (Nat.succ_pos _)
  refine ⟨?_, hframe, htext, fun i hi => (hround i hi).2.2.1⟩
  -- in round `0` nothing has been sampled yet
  rw [← actionIn_insert_before s req, ← actionIn_insert_before s' req']
  exact hrow

theorem lastRow_ne_empty (codes : Codes cfg φ ε δ) {s : FullInferenceState cfg φ ε}
    (h : s.Unfilled) (req : Request φ τ δ) :
    (s.afterRequest (fingerprint codes) textTokenizerModel req).lastRow ≠ .empty := by
  intro hempty
  have htoken := congrArg (fun row => row.token (cfg.slot 0)) hempty
  simp only [token_fingerprint codes h req (Nat.succ_pos _), ActionTokens.empty,
    ActionTokens.token_const] at htoken
  exact Nat.succ_ne_zero _ htoken

/-- Histories that every model leaves in the same state have left the same
requests behind. -/
theorem map_seen_eq [Zero φ] {reqs reqs' : List (Request φ τ δ)}
    (h : ∀ codes : Codes cfg φ ε δ,
      (afterRequests (fingerprint codes) textTokenizerModel reqs).lastRow =
        (afterRequests (fingerprint codes) textTokenizerModel reqs').lastRow) :
    reqs.map (seen textTokenizerModel cfg) = reqs'.map (seen textTokenizerModel cfg) := by
  have hfinite : {req | req ∈ reqs ++ reqs'}.Countable := (List.finite_toSet _).countable
  obtain ⟨codes, hframe, htext, hdraw⟩ := exists_codes cfg
    (hfinite.image Request.frame)
    (hfinite.image fun req => encodeTextTokens textTokenizerModel req.text)
    (hfinite.biUnion fun req _ => Set.countable_range req.draw)
  refine map_eq_of_chain_eq (f := fun reqs =>
      (afterRequests (fingerprint codes) textTokenizerModel reqs).lastRow)
    (S := fun req => req ∈ reqs ++ reqs') ?_ ?_ (fun req hreq => List.mem_append_left _ hreq)
    (fun req hreq => List.mem_append_right _ hreq) (h codes)
  · intro l req
    rw [afterRequests_concat]
    exact lastRow_ne_empty codes (unfilled_afterRequests _ _ l) req
  · intro l l' req req' hreq hreq' hrow
    rw [afterRequests_concat, afterRequests_concat] at hrow
    obtain ⟨hrest, hf, ht, hd⟩ := fingerprint_back codes (unfilled_afterRequests _ _ l)
      (unfilled_afterRequests _ _ l') hrow
    refine ⟨hrest, Prod.ext ?_ (Prod.ext ?_ (funext fun i => ?_))⟩
    · exact hframe (Set.mem_image_of_mem _ hreq) (Set.mem_image_of_mem _ hreq') hf
    · exact htext (Set.mem_image_of_mem _ hreq) (Set.mem_image_of_mem _ hreq') ht
    · exact hdraw (Set.mem_biUnion hreq (Set.mem_range_self _))
        (Set.mem_biUnion hreq' (Set.mem_range_self _)) (hd i i.isLt)

/-- **Connection isolation** of the server in full-inference mode. A connection
gets the same actions after two histories, whatever the model and the mapping
compute, if and only if it sends no frame or the two histories have left the
same frames, embeddings and draws behind. -/
theorem sameActions_iff [Zero φ] (textTokenizerModel : Option (τ → ε))
    (history history' : List (List (Request φ τ δ))) (reqs : List (Request φ τ δ)) :
    (∀ (α : Type) (policy : PolicyFunctions cfg φ ε δ α),
        ((serve policy textTokenizerModel history).handleRequests policy textTokenizerModel
          reqs).2 =
        ((serve policy textTokenizerModel history').handleRequests policy textTokenizerModel
          reqs).2) ↔
      reqs = [] ∨ history.flatten.map (seen textTokenizerModel cfg) =
        history'.flatten.map (seen textTokenizerModel cfg) := by
  constructor
  · intro h
    cases reqs with
    | nil => exact .inl rfl
    | cons req reqs =>
        refine .inr (map_seen_eq fun codes => ?_)
        -- the first action of the connection already tells the histories apart
        have hactions := h _ (fingerprint codes)
        simp only [handleRequests, reset, getActions, getAction, List.cons.injEq] at hactions
        rw [← serve_eq, ← serve_eq]
        exact (fingerprint_back codes (by rw [serve_eq]; exact unfilled_afterRequests _ _ _)
          (by rw [serve_eq]; exact unfilled_afterRequests _ _ _) hactions.1).1
  · rintro (rfl | hseen) α policy
    · rfl
    · rw [serve_congr policy textTokenizerModel hseen]

end Fingerprint

/-! ## A client that sees the one before it -/

inductive Image where
  | black
  | red
  | blue
deriving DecidableEq, Repr

instance : Zero Image := ⟨.black⟩

def Image.code : Image → ℕ
  | black => 0
  | red => 1
  | blue => 2

/-- Two steps, and no tokens but the deltas. -/
def cfg₀ : FullInferenceConfig := ⟨2, 0, 0, by decide⟩

/-- The action is the frame before the newest one. There is no tokenizer. -/
def policy₀ : PolicyFunctions cfg₀ Image Image Unit ℕ where
  onlineFullPredict frames _ _ _ t := .const (frames (before t)).code
  tensorToAction row _ := row.mouseDeltaX

def frame₀ (frame : Image) : Request Image Unit Unit := ⟨frame, none, fun _ => ()⟩

/-- The warm-up, then one earlier connection of one frame. -/
def history₀ (frame : Image) : List (List (Request Image Unit Unit)) :=
  [List.replicate 5 (frame₀ .black), [frame₀ frame]]

theorem history_leaks :
    ((serve policy₀ none (history₀ .red)).handleRequests policy₀ none [frame₀ .black]).2 ≠
      ((serve policy₀ none (history₀ .blue)).handleRequests policy₀ none [frame₀ .black]).2 := by
  show ([1] : List ℕ) ≠ [2]
  intro h
  cases h

end FullInferenceState

end P2PRdt.Inference

import P2PRdt.Lib.Grid
import P2PRdt.Policy.OriginInit

/-!
# The tokens of several views

`MultiViewTokenConcatTokenizer` lays the views of a step next to each other on
the time axis for the base tokenizer and then the tokens of the views of a step
next to each other on the token axis. `_adapt_origin_tensor_to_target` tiles the
position tokens of a single view along the token axis. Both put the view first
and the token of the view second, so every view gets the positions that the
single view had.
-/

namespace P2PRdt.Policy

open Lib

inductive TokenizerError where
  | valueError (message : String)
  | assertionError (message : String)
  | indexError
  | runtimeError
deriving DecidableEq, Repr

/-- `ImageBaseTokenizer`, from images to token vectors. -/
structure ImageTokenizer (α β : Type) where
  nImgTokens : ℕ
  forward : Grid α → Except TokenizerError (Grid β)

/-- `eager_assert` on a shape. -/
def eagerAssert (isCompiling : Bool) (left right : List ℕ) : Except TokenizerError Unit :=
  if isCompiling ∨ left = right then .ok ()
  else
    .error (.assertionError ("Eager assert failed: torch.Size([" ++
      ", ".intercalate (left.map toString) ++ "]) != " ++ pyTuple right))

structure MultiViewTokenConcatTokenizer (α β : Type) where
  baseTokenizer : ImageTokenizer α β
  numViews : ℕ

namespace MultiViewTokenConcatTokenizer

variable {α β : Type}

/-- `MultiViewTokenConcatTokenizer.__init__`. -/
def init (baseTokenizer : ImageTokenizer α β) (numViews : ℤ) :
    Except TokenizerError (MultiViewTokenConcatTokenizer α β) :=
  if numViews ≤ 0 then
    .error (.valueError ("num_views must be positive, got " ++ toString numViews ++ "."))
  else .ok ⟨baseTokenizer, numViews.toNat⟩

/-- `MultiViewTokenConcatTokenizer.get_n_img_tokens`. -/
def getNImgTokens (self : MultiViewTokenConcatTokenizer α β) : ℕ :=
  self.baseTokenizer.nImgTokens * self.numViews

/-- `MultiViewTokenConcatTokenizer.forward`. -/
def forward (isCompiling : Bool) (self : MultiViewTokenConcatTokenizer α β)
    (inputTensor : Grid α) : Except TokenizerError (Grid β) :=
  match inputTensor.shape with
  | [_, _, _, _, _] =>
      if self.numViews ≠ 1 then
        .error (.valueError ("Expected 6D multi-view input with " ++ toString self.numViews ++
          " views, got shape " ++ pyTuple inputTensor.shape ++ "."))
      else self.baseTokenizer.forward inputTensor
  | [B, T, V, C, H, W] =>
      if V ≠ self.numViews then
        .error (.valueError ("Expected " ++ toString self.numViews ++ " camera views, got " ++
          toString V ++ " for shape " ++ pyTuple inputTensor.shape ++ "."))
      else
        match inputTensor.reshape [B, T * V, C, H, W] with
        | none => .error .runtimeError
        | some tokenizerIn => do
            let tokens ← self.baseTokenizer.forward tokenizerIn
            let perViewTokens := self.baseTokenizer.nImgTokens
            match tokens.shape.getLast? with
            | none => .error .indexError
            | some width => do
                eagerAssert isCompiling tokens.shape [B, T * V, perViewTokens, width]
                match tokens.reshape [B, T, V * perViewTokens, width] with
                | none => .error .runtimeError
                | some out => .ok out
  | _ =>
      .error (.valueError ("MultiViewTokenConcatTokenizer expects 6D input, got shape " ++
        pyTuple inputTensor.shape ++ "."))

/-- It is an `ImageBaseTokenizer` itself. -/
def toImageTokenizer (isCompiling : Bool) (self : MultiViewTokenConcatTokenizer α β) :
    ImageTokenizer α β :=
  ⟨self.getNImgTokens, self.forward isCompiling⟩

end MultiViewTokenConcatTokenizer

section Transformer

variable {α β γ δ K : Type}

def Tensor.toGrid (t : Tensor δ K) : Grid K := ⟨t.shape, t.entry⟩

/-- The position encoded image tokens of `PolicyCausalTransformer.forward`, with
what `+` makes of a token and a position token. -/
def imgTokensWithPos (isCompiling : Bool) (add : β → K → γ) (imageTokenizer : ImageTokenizer α β)
    (embedDim : ℕ) (imgPosTokens : Tensor δ K) (img : Grid α) : Except TokenizerError (Grid γ) :=
  match img.shape with
  | B :: T :: _ => do
      let imgTokens ← imageTokenizer.forward img
      eagerAssert isCompiling imgTokens.shape [B, T, imageTokenizer.nImgTokens, embedDim]
      match imgTokens.zipWith add imgPosTokens.toGrid.unsqueezeFirst with
      | some withPos => .ok withPos
      | none => .error .runtimeError
  | shape =>
      .error (.valueError ("not enough values to unpack (expected at least 2, got " ++
        toString shape.length ++ ")"))

end Transformer

/-! ## Views and images -/

section Views

variable {α β γ δ K : Type}

/-- `x[:, :, v]`. -/
def viewOf (x : Grid α) (v : ℕ) : Grid α :=
  ⟨x.shape.eraseIdx 2, fun idx => x.entry (idx.take 2 ++ v :: idx.drop 2)⟩

/-- `x[b, t]`. -/
def imageAt (x : Grid α) (b t : ℕ) : Grid α := ⟨x.shape.drop 2, fun idx => x.entry (b :: t :: idx)⟩

/-- A tokenizer that makes `P` tokens of every image of a size from this image alone. -/
structure MapsImages (base : ImageTokenizer α β) (size : List ℕ) (P width : ℕ)
    (encode : Grid α → ℕ → ℕ → β) : Prop where
  nImgTokens_eq : base.nImgTokens = P
  encode_same : ∀ x y, x.shape = size → x.Same y → ∀ p < P, ∀ d < width, encode x p d = encode y p d
  forward_eq : ∀ img B T, img.shape = B :: T :: size →
    ∃ tokens, base.forward img = .ok tokens ∧ tokens.shape = [B, T, P, width] ∧
      ∀ b < B, ∀ t < T, ∀ p < P, ∀ d < width,
        tokens.entry [b, t, p, d] = encode (imageAt img b t) p d

variable {B T V C H W P width : ℕ} {encode : Grid α → ℕ → ℕ → β}

/-- After the merge, image `t * V + v` is the one that view `v` has at step `t`. -/
theorem imageAt_merged {x merged : Grid α} (hx : x.shape = [B, T, V, C, H, W])
    (hshape : merged.shape = [B, T * V, C, H, W])
    (hentry : ∀ idx idx', InBounds x.shape idx →
      ravel x.shape idx = ravel [B, T * V, C, H, W] idx' → merged.entry idx' = x.entry idx)
    {b t v : ℕ} (hb : b < B) (ht : t < T) (hv : v < V) :
    (imageAt merged b (t * V + v)).Same (imageAt (viewOf x v) b t) := by
  have hleft : (imageAt merged b (t * V + v)).shape = [C, H, W] :=
    congrArg (List.drop 2) hshape
  have hright : (imageAt (viewOf x v) b t).shape = [C, H, W] :=
    congrArg (fun s : List ℕ => (s.eraseIdx 2).drop 2) hx
  refine ⟨hleft.trans hright.symm, ?_⟩
  intro idx hidx
  rw [hleft] at hidx
  apply hentry (b :: t :: v :: idx)
  · rw [hx]
    exact inBounds_cons_cons.mpr
      ⟨hb, inBounds_cons_cons.mpr ⟨ht, inBounds_cons_cons.mpr ⟨hv, hidx⟩⟩⟩
  · rw [hx]
    exact ravel_merge [B] [C, H, W] T V [b] t v rfl

/-- The passes of `forward` one after the other. -/
theorem forward_eq_reshape (isCompiling : Bool) {self : MultiViewTokenConcatTokenizer α β}
    {x merged : Grid α} {tokens out : Grid β} (hP : self.baseTokenizer.nImgTokens = P)
    (hV : self.numViews = V) (hx : x.shape = [B, T, V, C, H, W])
    (hmerged : x.reshape [B, T * V, C, H, W] = some merged)
    (htokens : self.baseTokenizer.forward merged = .ok tokens)
    (hshape : tokens.shape = [B, T * V, P, width])
    (hout : tokens.reshape [B, T, V * P, width] = some out) :
    self.forward isCompiling x = .ok out := by
  have hassert : eagerAssert isCompiling tokens.shape [B, T * V, P, width] = .ok () :=
    if_pos (Or.inr hshape)
  have hwidth : tokens.shape.getLast? = some width := by
    rw [hshape]
    rfl
  rw [MultiViewTokenConcatTokenizer.forward, hx]
  simp only [hV, hP, ne_eq, not_true_eq_false, if_false, hmerged, htokens, bind, Except.bind,
    hwidth, hassert, hout]

/-- Token `v * P + p` of a step is token `p` of view `v`. -/
theorem forward_spec_views (isCompiling : Bool) {self : MultiViewTokenConcatTokenizer α β}
    (hbase : MapsImages self.baseTokenizer [C, H, W] P width encode) (hV : self.numViews = V)
    {x : Grid α} (hx : x.shape = [B, T, V, C, H, W]) :
    ∃ tokens, self.forward isCompiling x = .ok tokens ∧ tokens.shape = [B, T, V * P, width] ∧
      ∀ v < V, ∃ viewTokens, self.baseTokenizer.forward (viewOf x v) = .ok viewTokens ∧
        ∀ b < B, ∀ t < T, ∀ p < P, ∀ d < width,
          tokens.entry [b, t, v * P + p, d] = viewTokens.entry [b, t, p, d] := by
  have hmerge : x.shape.prod = [B, T * V, C, H, W].prod := by
    rw [hx]
    simp only [List.prod_cons, Nat.mul_assoc]
  obtain ⟨merged, hmerged, hmshape, hmentry⟩ := Grid.reshape_spec hmerge
  obtain ⟨tokens, htokens, htshape, htentry⟩ := hbase.forward_eq merged B (T * V) hmshape
  have hsplit : tokens.shape.prod = [B, T, V * P, width].prod := by
    rw [htshape]
    simp only [List.prod_cons, Nat.mul_assoc]
  obtain ⟨out, hout, hoshape, hoentry⟩ := Grid.reshape_spec hsplit
  refine ⟨out, ?_, hoshape, ?_⟩
  · exact forward_eq_reshape isCompiling hbase.nImgTokens_eq hV hx hmerged htokens htshape hout
  · intro v hv
    obtain ⟨viewTokens, hview, -, hventry⟩ := hbase.forward_eq (viewOf x v) B T
      (congrArg (List.eraseIdx · 2) hx)
    refine ⟨viewTokens, hview, ?_⟩
    intro b hb t ht p hp d hd
    have hmid : t * V + v < T * V := by
      calc t * V + v < t * V + V := Nat.add_lt_add_left hv _
        _ = (t + 1) * V := (Nat.succ_mul t V).symm
        _ ≤ T * V := Nat.mul_le_mul_right V ht
    have hplace : ravel tokens.shape [b, t * V + v, p, d] =
        ravel [B, T, V * P, width] [b, t, v * P + p, d] := by
      rw [htshape]
      calc ravel [B, T * V, P, width] [b, t * V + v, p, d]
          = ravel [B, T, V, P, width] [b, t, v, p, d] :=
            (ravel_merge [B] [P, width] T V [b] t v rfl).symm
        _ = ravel [B, T, V * P, width] [b, t, v * P + p, d] :=
            ravel_merge [B, T] [width] V P [b, t] v p rfl
    have hinside : InBounds tokens.shape [b, t * V + v, p, d] := by
      rw [htshape]
      simp [hb, hmid, hp, hd]
    have hsame := imageAt_merged hx hmshape hmentry hb ht hv
    calc out.entry [b, t, v * P + p, d]
        = tokens.entry [b, t * V + v, p, d] := hoentry _ _ hinside hplace
      _ = encode (imageAt merged b (t * V + v)) p d := htentry b hb _ hmid p hp d hd
      _ = encode (imageAt (viewOf x v) b t) p d :=
          hbase.encode_same _ _ (congrArg (List.drop 2) hmshape) hsame p hp d hd
      _ = viewTokens.entry [b, t, p, d] := (hventry b hb t ht p hp d hd).symm

theorem imageAt_same {x y : Grid α} {size : List ℕ} (hx : x.shape = B :: T :: size)
    (hsame : x.Same y) {b t : ℕ} (hb : b < B) (ht : t < T) :
    (imageAt x b t).Same (imageAt y b t) := by
  refine ⟨congrArg (List.drop 2) hsame.shape_eq, ?_⟩
  intro idx hidx
  have hsize : (imageAt x b t).shape = size := congrArg (List.drop 2) hx
  rw [hsize] at hidx
  apply hsame.entry_eq
  rw [hx]
  exact inBounds_cons_cons.mpr ⟨hb, inBounds_cons_cons.mpr ⟨ht, hidx⟩⟩

/-- The same images have the same tokens. -/
theorem MapsImages.forward_same {base : ImageTokenizer α β} {size : List ℕ}
    (hbase : MapsImages base size P width encode) {x y : Grid α} (hx : x.shape = B :: T :: size)
    (hsame : x.Same y) :
    ∃ xTokens yTokens, base.forward x = .ok xTokens ∧ base.forward y = .ok yTokens ∧
      ∀ b < B, ∀ t < T, ∀ p < P, ∀ d < width,
        xTokens.entry [b, t, p, d] = yTokens.entry [b, t, p, d] := by
  have hy : y.shape = B :: T :: size := hsame.shape_eq.symm.trans hx
  obtain ⟨xTokens, hxTokens, -, hxentry⟩ := hbase.forward_eq x B T hx
  obtain ⟨yTokens, hyTokens, -, hyentry⟩ := hbase.forward_eq y B T hy
  refine ⟨xTokens, yTokens, hxTokens, hyTokens, ?_⟩
  intro b hb t ht p hp d hd
  rw [hxentry b hb t ht p hp d hd, hyentry b hb t ht p hp d hd]
  exact hbase.encode_same _ _ (congrArg (List.drop 2) hx) (imageAt_same hx hsame hb ht) p hp d hd

/-- Images without a view axis go to the base tokenizer as they are. -/
theorem forward_single_view (isCompiling : Bool) {self : MultiViewTokenConcatTokenizer α β}
    (hV : self.numViews = 1) {img : Grid α} (himg : img.shape = [B, T, C, H, W]) :
    self.forward isCompiling img = self.baseTokenizer.forward img := by
  rw [MultiViewTokenConcatTokenizer.forward, himg]
  exact if_neg (not_not_intro hV)

end Views

/-! ## Positions -/

section Positions

variable {α β γ δ K : Type} {B T P V width : ℕ}

/-- The tiled tensor has at place `v * P + p` the position of token `p`. -/
theorem adapt_imgPosTokens (cast : δ → K → K) {source target : Tensor δ K}
    {sourceKey targetKey : String} (hP : 1 ≤ P) (hsource : source.shape = [1, P, width])
    (htarget : target.shape = [1, P * V, width])
    (hsourceKey : endsWith sourceKey "img_pos_tokens" = true)
    (htargetKey : endsWith targetKey "img_pos_tokens" = true) :
    ∃ pos mode, adaptOriginTensorToTarget cast sourceKey source targetKey target =
        .ok (pos, mode) ∧ pos.shape = [1, P * V, width] ∧
      ∀ v < V, ∀ p < P, ∀ d,
        pos.entry [0, v * P + p, d] = (source.to cast target.dtype).entry [0, p, d] := by
  by_cases hshape : source.shape = target.shape
  · refine ⟨source.to cast target.dtype, "direct", if_pos hshape, hshape.trans htarget, ?_⟩
    have hlen : P * 1 = P * V := by
      have haxes := (hsource.symm.trans hshape).trans htarget
      simpa using haxes
    obtain rfl := Nat.eq_of_mul_eq_mul_left hP hlen
    intro v hv p _ d
    rw [Nat.lt_one_iff.mp hv, Nat.zero_mul, Nat.zero_add]
  · have hfactor : P * V / P = V := Nat.mul_div_cancel_left V hP
    refine ⟨(source.repeatTokens 1 P width V).to cast target.dtype,
      "repeat_img_tokens_x" ++ toString V, ?_, ?_, ?_⟩
    · rw [adaptOriginTensorToTarget, if_neg hshape, hsource, htarget]
      simp only [hsourceKey, htargetKey, Bool.and_self, decide_true, if_true,
        Nat.one_le_iff_ne_zero.mp hP, if_false, Nat.mul_mod_right, hfactor]
    · rfl
    · intro v _ p hp d
      show cast target.dtype (source.entry [0, (v * P + p) % P, d]) = _
      rw [Nat.mul_comm v P, Nat.mul_add_mod, Nat.mod_eq_of_lt hp]
      rfl

/-- The position token of a place is added to every token at this place. -/
theorem imgTokensWithPos_spec (isCompiling : Bool) (add : β → K → γ)
    (imageTokenizer : ImageTokenizer α β) (pos : Tensor δ K) {img : Grid α} {tokens : Grid β}
    {rest : List ℕ} (himg : img.shape = B :: T :: rest)
    (htokens : imageTokenizer.forward img = .ok tokens)
    (hshape : tokens.shape = [B, T, imageTokenizer.nImgTokens, width])
    (hpos : pos.shape = [1, imageTokenizer.nImgTokens, width]) :
    ∃ withPos, imgTokensWithPos isCompiling add imageTokenizer width pos img = .ok withPos ∧
      ∀ b < B, ∀ t < T, ∀ n < imageTokenizer.nImgTokens, ∀ d < width,
        withPos.entry [b, t, n, d] = add (tokens.entry [b, t, n, d]) (pos.entry [0, n, d]) := by
  have hassert : eagerAssert isCompiling tokens.shape
      [B, T, imageTokenizer.nImgTokens, width] = .ok () := if_pos (Or.inr hshape)
  obtain ⟨withPos, hadd, -, hentry⟩ := Grid.zipWith_repeat add (x := tokens)
    (y := pos.toGrid.unsqueezeFirst) [B, T] [imageTokenizer.nImgTokens, width] (k := 2)
    (Nat.le_refl 2) hshape (congrArg (List.cons 1) hpos)
  refine ⟨withPos, ?_, ?_⟩
  · rw [imgTokensWithPos, himg]
    simp only [htokens, bind, Except.bind, hassert, hadd]
  · intro b hb t ht n hn d hd
    exact hentry [b, t] [n, d] (inBounds_two.mpr ⟨b, t, hb, ht, rfl⟩)
      (inBounds_two.mpr ⟨n, d, hn, hd, rfl⟩)

/-- The tensor in a dtype that it has is the tensor. -/
theorem Tensor.to_self {cast : δ → K → K} {t : Tensor δ K}
    (hvalues : ∀ idx, cast t.dtype (t.entry idx) = t.entry idx) {dtype : δ}
    (hdtype : t.dtype = dtype) : t.to cast dtype = t := by
  subst hdtype
  rw [Tensor.to, funext hvalues]

end Positions

section Adapted

variable {α β γ δ K : Type} {B T V C H W P width : ℕ} {encode : Grid α → ℕ → ℕ → β}

/-- Every view gets the position tokens of the origin model, in the dtype of the
target, and views of the same image get the tokens that the origin model has.
`PolicyCausalTransformer` makes its position tokens in one dtype, so they do not
change. -/
theorem adapted_positions_match_views (isCompiling : Bool) (add : β → K → γ) (cast : δ → K → K)
    {self : MultiViewTokenConcatTokenizer α β}
    (hbase : MapsImages self.baseTokenizer [C, H, W] P width encode) (hV : self.numViews = V)
    (hP : 1 ≤ P) {source target : Tensor δ K} {sourceKey targetKey : String}
    (hsource : source.shape = [1, P, width])
    (htarget : target.shape = [1, self.getNImgTokens, width])
    (hsourceKey : endsWith sourceKey "img_pos_tokens" = true)
    (htargetKey : endsWith targetKey "img_pos_tokens" = true)
    (hvalues : ∀ idx, cast source.dtype (source.entry idx) = source.entry idx)
    {x : Grid α} (hx : x.shape = [B, T, V, C, H, W]) :
    ∃ tokens pos mode withPos,
      self.forward isCompiling x = .ok tokens ∧
      adaptOriginTensorToTarget cast sourceKey source targetKey target = .ok (pos, mode) ∧
      imgTokensWithPos isCompiling add (self.toImageTokenizer isCompiling) width pos x =
        .ok withPos ∧
      (∀ v < V, ∃ viewTokens, self.baseTokenizer.forward (viewOf x v) = .ok viewTokens ∧
        ∀ b < B, ∀ t < T, ∀ p < P, ∀ d < width,
          tokens.entry [b, t, v * P + p, d] = viewTokens.entry [b, t, p, d] ∧
          withPos.entry [b, t, v * P + p, d] =
            add (viewTokens.entry [b, t, p, d]) ((source.to cast target.dtype).entry [0, p, d])) ∧
      (∀ img, img.shape = [B, T, C, H, W] → (∀ v < V, (viewOf x v).Same img) →
        ∃ originWithPos,
          imgTokensWithPos isCompiling add self.baseTokenizer width
            (source.to cast target.dtype) img = .ok originWithPos ∧
          ∀ v < V, ∀ b < B, ∀ t < T, ∀ p < P, ∀ d < width,
            withPos.entry [b, t, v * P + p, d] = originWithPos.entry [b, t, p, d]) ∧
      (source.dtype = target.dtype → source.to cast target.dtype = source) ∧
      (V = 1 → ∀ img, img.shape = [B, T, C, H, W] →
        self.forward isCompiling img = self.baseTokenizer.forward img) := by
  have hcount : self.getNImgTokens = P * V := by
    rw [MultiViewTokenConcatTokenizer.getNImgTokens, hbase.nImgTokens_eq, hV]
  rw [hcount] at htarget
  obtain ⟨tokens, htokens, hshape, hviews⟩ := forward_spec_views isCompiling hbase hV hx
  obtain ⟨pos, mode, hpos, hposshape, htiled⟩ :=
    adapt_imgPosTokens cast hP hsource htarget hsourceKey htargetKey
  rw [Nat.mul_comm V P] at hshape
  have htotal : (self.toImageTokenizer isCompiling).nImgTokens = P * V := hcount
  obtain ⟨withPos, hwithPos, hencoded⟩ := imgTokensWithPos_spec isCompiling add
    (self.toImageTokenizer isCompiling) pos hx htokens (htotal.symm ▸ hshape)
    (htotal.symm ▸ hposshape)
  have hplace : ∀ v < V, ∀ p < P, v * P + p < self.getNImgTokens := by
    intro v hv p hp
    rw [hcount]
    calc v * P + p < v * P + P := Nat.add_lt_add_left hp _
      _ = (v + 1) * P := (Nat.succ_mul v P).symm
      _ ≤ V * P := Nat.mul_le_mul_right P hv
      _ = P * V := Nat.mul_comm V P
  have hsum : ∀ v < V, ∀ viewTokens : Grid β,
      (∀ b < B, ∀ t < T, ∀ p < P, ∀ d < width,
        tokens.entry [b, t, v * P + p, d] = viewTokens.entry [b, t, p, d]) →
      ∀ b < B, ∀ t < T, ∀ p < P, ∀ d < width, withPos.entry [b, t, v * P + p, d] =
        add (viewTokens.entry [b, t, p, d]) ((source.to cast target.dtype).entry [0, p, d]) := by
    intro v hv viewTokens hview b hb t ht p hp d hd
    rw [hencoded b hb t ht _ (hplace v hv p hp) d hd, hview b hb t ht p hp d hd,
      htiled v hv p hp d]
  refine ⟨tokens, pos, mode, withPos, htokens, hpos, hwithPos, ?_, ?_, Tensor.to_self hvalues, ?_⟩
  · intro v hv
    obtain ⟨viewTokens, hforward, hview⟩ := hviews v hv
    refine ⟨viewTokens, hforward, ?_⟩
    intro b hb t ht p hp d hd
    exact ⟨hview b hb t ht p hp d hd, hsum v hv viewTokens hview b hb t ht p hp d hd⟩
  · intro img himg hsame
    obtain ⟨imgTokens, himgTokens, himgshape, -⟩ := hbase.forward_eq img B T himg
    obtain ⟨originWithPos, horigin, horiginEntry⟩ := imgTokensWithPos_spec isCompiling add
      self.baseTokenizer (source.to cast target.dtype) himg himgTokens
      (hbase.nImgTokens_eq.symm ▸ himgshape) (hbase.nImgTokens_eq.symm ▸ hsource)
    refine ⟨originWithPos, horigin, ?_⟩
    intro v hv b hb t ht p hp d hd
    obtain ⟨viewTokens, hforward, hview⟩ := hviews v hv
    obtain ⟨viewTokens', imgTokens', hforward', himgTokens', hequal⟩ :=
      hbase.forward_same ((hsame v hv).shape_eq.trans himg) (hsame v hv)
    obtain rfl := Except.ok.inj (hforward.symm.trans hforward')
    obtain rfl := Except.ok.inj (himgTokens.symm.trans himgTokens')
    rw [hsum v hv viewTokens hview b hb t ht p hp d hd, hequal b hb t ht p hp d hd,
      horiginEntry b hb t ht p (hbase.nImgTokens_eq.symm ▸ hp) d hd]
  · intro hone img himg
    exact forward_single_view isCompiling (hV.trans hone) himg

end Adapted

/-- Two tokens of an image of one pixel. -/
def pixelTokenizer : ImageTokenizer ℤ ℤ where
  nImgTokens := 2
  forward := fun img =>
    match img.shape with
    | [B, T, 1, 1, 1] =>
        .ok ⟨[B, T, 2, 1], fun idx => img.entry (idx.take 2 ++ [0, 0, 0]) + idx.getD 2 0⟩
    | _ => .error .runtimeError

theorem pixelTokenizer_mapsImages :
    MapsImages pixelTokenizer [1, 1, 1] 2 1 fun image p _ => image.entry [0, 0, 0] + p := by
  refine ⟨rfl, ?_, ?_⟩
  · intro x y hx hsame p _ d _
    have hpixel := hsame.entry_eq [0, 0, 0] (by rw [hx]; decide)
    exact congrArg (· + (p : ℤ)) hpixel
  · intro img B T himg
    refine ⟨⟨[B, T, 2, 1], fun idx => img.entry (idx.take 2 ++ [0, 0, 0]) + idx.getD 2 0⟩, ?_, rfl,
      fun _ _ _ _ _ _ _ _ => rfl⟩
    simp only [pixelTokenizer, himg]

def originPositions : Tensor Unit ℤ := ⟨[1, 2, 1], (), fun idx => 10 * idx.getD 1 0⟩

def twoViewPositions : Tensor Unit ℤ := ⟨[1, 4, 1], (), fun _ => 0⟩

/-- Two views of one pixel of brightness 7, origin positions 0 and 10. -/
theorem adapted_positions_match_views_two :
    ∃ pos mode withPos,
      adaptOriginTensorToTarget (fun _ z => z) "bc_transformer.img_pos_tokens" originPositions
        "bc_transformer.img_pos_tokens" twoViewPositions = .ok (pos, mode) ∧
      imgTokensWithPos false (· + ·)
        ((MultiViewTokenConcatTokenizer.mk pixelTokenizer 2).toImageTokenizer false) 1 pos
        (Grid.full [1, 1, 2, 1, 1, 1] 7) = .ok withPos ∧
      ∀ v < 2, ∀ p < 2, withPos.entry [0, 0, v * 2 + p, 0] = 7 + p + 10 * p := by
  have htarget : twoViewPositions.shape =
      [1, (MultiViewTokenConcatTokenizer.mk pixelTokenizer 2).getNImgTokens, 1] := rfl
  obtain ⟨tokens, pos, mode, withPos, -, hpos, hwithPos, hviews, -⟩ :=
    adapted_positions_match_views (B := 1) (T := 1) false (· + ·) (fun _ z => z)
      pixelTokenizer_mapsImages rfl (by decide) (show originPositions.shape = [1, 2, 1] from rfl)
      htarget (show endsWith "bc_transformer.img_pos_tokens" "img_pos_tokens" = true by decide)
      (show endsWith "bc_transformer.img_pos_tokens" "img_pos_tokens" = true by decide)
      (fun _ => rfl) (x := Grid.full [1, 1, 2, 1, 1, 1] 7) rfl
  refine ⟨pos, mode, withPos, hpos, hwithPos, ?_⟩
  intro v hv p hp
  obtain ⟨viewTokens, hview, hentry⟩ := hviews v hv
  obtain rfl := Except.ok.inj hview
  exact (hentry 0 (by decide) 0 (by decide) p hp 0 (by decide)).2

end P2PRdt.Policy

import P2PRdt.Lib.Buckets
import P2PRdt.Lib.OptionLists
import P2PRdt.Lib.RowMajor
import P2PRdt.Lib.Strided
import Mathlib.Data.Rat.Floor

/-!
# Camera images

The image pipeline is written twice: `LatentLeRobotDataset._cat_video_images`
prepares the videos of a segment, with a time axis in front and the channels
before the rows, and `RobotTwinObservationAdapter.prepare_frame` prepares one
observation, with the channels last. Both resize an image into the target size,
pad it with zeros and merge the cameras.

`F.interpolate` is a function of one image and a target size. Sizes are computed
with rational numbers and rounded half to even; all images are `uint8`.
-/

namespace P2PRdt.Robot

open Lib

/-- An image with the axes `C H W` and three channels. -/
abbrev Image (α : Type) (h w : ℕ) := Fin 3 → Fin h → Fin w → α

inductive MultiViewImageMode where
  | vertical
  | frame
  | first
  | tokenConcat
  deriving DecidableEq

/-- A frame of an item: one image, or one image for each camera. -/
inductive Frame (H W : ℕ) where
  | image (rows : ℕ) (pixels : Image UInt8 rows W)
  | views (images : List (Image UInt8 H W))

/-- What the image code reads from the configuration, and `F.interpolate` with
the mode `bilinear`. -/
structure ImageConfig (K : Type) where
  imageHeight : ℕ
  imageWidth : ℕ
  multiViewImageMode : MultiViewImageMode
  interpolate : {h w : ℕ} → Image K h w → (h' w' : ℕ) → Image K h' w'

/-- `torch.cat` along the rows. -/
def catRows {α : Type} {H W : ℕ} (images : List (Image α H W)) : Image α (images.length * H) W :=
  fun c r k => images.get r.divNat c r.modNat k

section Pixels

variable {K : Type} [Field K] [LinearOrder K]

/-- `F.pad` with zeros into `H` rows and `W` columns; a negative padding cuts. -/
def padImage {h w : ℕ} (padTop padLeft : ℤ) (H W : ℕ) (image : Image K h w) : Image K H W :=
  fun c r k =>
    if hin : (0 ≤ (r : ℤ) - padTop ∧ (r : ℤ) - padTop < h) ∧
        (0 ≤ (k : ℤ) - padLeft ∧ (k : ℤ) - padLeft < w) then
      image c ⟨((r : ℤ) - padTop).toNat, by omega⟩ ⟨((k : ℤ) - padLeft).toNat, by omega⟩
    else 0

/-- `image.round().clamp(0, 255).to(torch.uint8)`. -/
def toUint8 [FloorRing K] (v : K) : UInt8 :=
  UInt8.ofNat (min (max (roundHalfEven v) 0) 255).toNat

end Pixels

namespace ImageConfig

section Sizes

variable {K : Type} (cfg : ImageConfig K)

/-- `round(h * scale)` and `round(w * scale)`. -/
def newSize (h w : ℕ) : ℤ × ℤ :=
  let scale : ℚ := min ((cfg.imageHeight : ℚ) / h) ((cfg.imageWidth : ℚ) / w)
  (roundHalfEven (h * scale), roundHalfEven (w * scale))

/-- The padding before and after an axis. -/
def paddings (size newSize : ℤ) : ℤ × ℤ :=
  let pad := size - newSize
  (pad / 2, pad - pad / 2)

/-- An image of this size can be resized: its sides are not empty, and
`F.interpolate` refuses an empty target. -/
def Resizable (h w : ℕ) : Prop :=
  1 ≤ h ∧ 1 ≤ w ∧ 1 ≤ (cfg.newSize h w).1 ∧ 1 ≤ (cfg.newSize h w).2

instance (h w : ℕ) : Decidable (cfg.Resizable h w) :=
  inferInstanceAs (Decidable (_ ∧ _ ∧ _ ∧ _))

end Sizes

/-! ## Serving: one observation -/

/-- An array with the axes `H W C` from a camera. -/
structure CameraImage where
  height : ℕ
  width : ℕ
  pixels : Fin height → Fin width → Fin 3 → UInt8

structure ChwImage where
  height : ℕ
  width : ℕ
  pixels : Image UInt8 height width

/-- `_to_chw_uint8`: an array whose first axis has three entries is taken for
one with the channels first. -/
def toChwUint8 (image : CameraImage) : ChwImage :=
  if h : image.height = 3 then
    ⟨image.width, 3, fun c r k => image.pixels (Fin.cast h.symm c) r k⟩
  else ⟨image.height, image.width, fun c r k => image.pixels r k c⟩

section Pipelines

variable {K : Type} [Field K] [LinearOrder K] [FloorRing K] (cfg : ImageConfig K)

def resizeAndPad {h w : ℕ} (image : Image UInt8 h w) :
    Option (Image UInt8 cfg.imageHeight cfg.imageWidth) :=
  if cfg.Resizable h w then
    let newSize := cfg.newSize h w
    let resized := cfg.interpolate (fun c r k => ((image c r k).toNat : K)) newSize.1.toNat
      newSize.2.toNat
    let padded := padImage (paddings cfg.imageHeight newSize.1).1
      (paddings cfg.imageWidth newSize.2).1 cfg.imageHeight cfg.imageWidth resized
    some fun c r k => toUint8 (padded c r k)
  else none

/-- `prepare_frame`; the constructor refuses the mode `frame`. -/
def prepareFrame (usedVideoKeys : List String) (obs : String → Option CameraImage) :
    Option (Frame cfg.imageHeight cfg.imageWidth) := do
  let imageList ← usedVideoKeys.mapM fun key => do
    let image ← obs key
    cfg.resizeAndPad (toChwUint8 image).pixels
  match cfg.multiViewImageMode with
  | .vertical => if imageList = [] then none else some (.image _ (catRows imageList))
  | .first => imageList.head?.map (.image _)
  | .tokenConcat => if imageList = [] then none else some (.views imageList)
  | .frame => none

/-! ## Training: the videos of a segment -/

/-- The entries of one camera in the data dictionary; `video` has the axes
`(F H W) C`. -/
structure VideoEntry where
  videoNumFrames : ℕ
  videoHeight : ℕ
  videoWidth : ℕ
  video : Fin (videoNumFrames * videoHeight * videoWidth) → Fin 3 → UInt8

/-- `rearrange(image, '(f h w) c -> f c h w')`. -/
def VideoEntry.rearranged (v : VideoEntry) :
    Fin v.videoNumFrames → Image UInt8 v.videoHeight v.videoWidth :=
  fun f c r k => v.video (rowMajor (rowMajor f r) k) c

/-- `_merge_multi_view_images`. -/
def mergeMultiViewImages {H W : ℕ} (mode : MultiViewImageMode)
    (imageLst : List (List (Image UInt8 H W))) : Option (List (Frame H W)) :=
  match mode with
  | .vertical => (stackLists imageLst).map fun stack => stack.map fun v => .image _ (catRows v)
  | .frame => (stackLists imageLst).map fun stack => stack.flatMap fun v => v.map (.image _)
  | .first => imageLst.head?.map fun images => images.map (.image _)
  | .tokenConcat => (stackLists imageLst).map fun stack => stack.map .views

/-- The loop body of `_cat_video_images`: the frames that the stride keeps,
resized and padded as a batch. -/
def prepareVideo (imageFrameStride : ℕ) (entry : VideoEntry) :
    Option (List (Image UInt8 cfg.imageHeight cfg.imageWidth)) :=
  let image := everyNth imageFrameStride (List.ofFn entry.rearranged)
  let h := entry.videoHeight
  let w := entry.videoWidth
  if cfg.Resizable h w then
    let newSize := cfg.newSize h w
    let resized := image.map fun frame =>
      cfg.interpolate (fun c r k => ((frame c r k).toNat : K)) newSize.1.toNat newSize.2.toNat
    let padded := resized.map (padImage (paddings cfg.imageHeight newSize.1).1
      (paddings cfg.imageWidth newSize.2).1 cfg.imageHeight cfg.imageWidth)
    some (padded.map fun frame c r k => toUint8 (frame c r k))
  else none

/-- The frames of `_cat_video_images`; a slice needs a positive step. -/
def catVideoImages (imageFrameStride : ℕ) (usedVideoKeys : List String)
    (dataDict : String → Option VideoEntry) :
    Option (List (Frame cfg.imageHeight cfg.imageWidth)) := do
  let imageLst ← usedVideoKeys.mapM fun key => do
    let entry ← dataDict key
    if imageFrameStride = 0 then none else cfg.prepareVideo imageFrameStride entry
  mergeMultiViewImages cfg.multiViewImageMode imageLst

end Pipelines

/-! ## Sizes and paddings -/

section Laws

variable {K : Type} (cfg : ImageConfig K)

/-- The scaled sides fit, and one of them fills its axis. -/
theorem newSize_le {h w : ℕ} (hh : 1 ≤ h) (hw : 1 ≤ w) :
    ((cfg.newSize h w).1 ≤ cfg.imageHeight ∧ (cfg.newSize h w).2 ≤ cfg.imageWidth) ∧
      ((cfg.newSize h w).1 = cfg.imageHeight ∨ (cfg.newSize h w).2 = cfg.imageWidth) := by
  have hhq : (0 : ℚ) < h := by exact_mod_cast hh
  have hwq : (0 : ℚ) < w := by exact_mod_cast hw
  have hheight : (h : ℚ) * (cfg.imageHeight / h) = cfg.imageHeight :=
    mul_div_cancel₀ _ hhq.ne'
  have hwidth : (w : ℚ) * (cfg.imageWidth / w) = cfg.imageWidth := mul_div_cancel₀ _ hwq.ne'
  refine ⟨⟨?_, ?_⟩, ?_⟩
  · apply roundHalfEven_le
    calc (h : ℚ) * min ((cfg.imageHeight : ℚ) / h) ((cfg.imageWidth : ℚ) / w)
        ≤ h * (cfg.imageHeight / h) := mul_le_mul_of_nonneg_left (min_le_left _ _) hhq.le
      _ = ((cfg.imageHeight : ℤ) : ℚ) := by rw [hheight, Int.cast_natCast]
  · apply roundHalfEven_le
    calc (w : ℚ) * min ((cfg.imageHeight : ℚ) / h) ((cfg.imageWidth : ℚ) / w)
        ≤ w * (cfg.imageWidth / w) := mul_le_mul_of_nonneg_left (min_le_right _ _) hwq.le
      _ = ((cfg.imageWidth : ℤ) : ℚ) := by rw [hwidth, Int.cast_natCast]
  · rcases min_choice ((cfg.imageHeight : ℚ) / h) ((cfg.imageWidth : ℚ) / w) with hmin | hmin
    · left
      rw [newSize, hmin, hheight]
      exact_mod_cast roundHalfEven_intCast (K := ℚ) cfg.imageHeight
    · right
      rw [newSize, hmin, hwidth]
      exact_mod_cast roundHalfEven_intCast (K := ℚ) cfg.imageWidth

/-- A scaled side and its paddings: together they fill the target. -/
structure Fits (size newSize : ℤ) : Prop where
  le : newSize ≤ size
  before_nonneg : 0 ≤ (paddings size newSize).1
  after_nonneg : 0 ≤ (paddings size newSize).2
  sum : (paddings size newSize).1 + (paddings size newSize).2 = size - newSize

theorem fits_of_le {size newSize : ℤ} (hle : newSize ≤ size) : Fits size newSize := by
  constructor
  · exact hle
  all_goals
    rw [paddings]
    dsimp only
    omega

end Laws

/-! ## One image, prepared twice -/

section Agreement

variable {K : Type} [Field K] [LinearOrder K] [FloorRing K] (cfg : ImageConfig K)

/-- A camera during a segment of `T` frames. -/
structure CameraVideo (T : ℕ) where
  height : ℕ
  width : ℕ
  frames : Fin T → Fin height → Fin width → Fin 3 → UInt8

namespace CameraVideo

variable {T : ℕ}

/-- What the camera shows at time `t`. -/
def imageAt (v : CameraVideo T) (t : Fin T) : CameraImage := ⟨v.height, v.width, v.frames t⟩

/-- `_get_range_image_data`: the frames as one array of pixels,
`image_data.reshape(num_frames * height * width, channels)`. -/
def toEntry (v : CameraVideo T) : VideoEntry where
  videoNumFrames := T
  videoHeight := v.height
  videoWidth := v.width
  video := fun p => v.frames p.divNat.divNat p.divNat.modNat p.modNat

/-- The sizes that the image pipelines take, and that the guess of the channel
axis gets right. -/
def Accepted (v : CameraVideo T) : Prop := v.height ≠ 3 ∧ cfg.Resizable v.height v.width

/-- Flattening the pixels and splitting them again moves the channels in front. -/
theorem rearranged_toEntry (v : CameraVideo T) (t : Fin T) :
    v.toEntry.rearranged t = fun c r k => v.frames t r k c := by
  funext c r k
  exact split_merge (fun f r k => v.frames f r k c) t r k

end CameraVideo

open CameraVideo

variable {T : ℕ}

/-- An image in its final form. -/
def fitted {h w : ℕ} (image : Image UInt8 h w) : Image UInt8 cfg.imageHeight cfg.imageWidth :=
  let newSize := cfg.newSize h w
  let resized := cfg.interpolate (fun c r k => ((image c r k).toNat : K)) newSize.1.toNat
    newSize.2.toNat
  let padded := padImage (paddings cfg.imageHeight newSize.1).1
    (paddings cfg.imageWidth newSize.2).1 cfg.imageHeight cfg.imageWidth resized
  fun c r k => toUint8 (padded c r k)

def preparedImage (v : CameraVideo T) (t : Fin T) : Image UInt8 cfg.imageHeight cfg.imageWidth :=
  cfg.fitted fun c r k => v.frames t r k c

variable {cfg}

theorem resizeAndPad_imageAt {v : CameraVideo T} (hv : v.Accepted cfg) (t : Fin T) :
    cfg.resizeAndPad (toChwUint8 (v.imageAt t)).pixels = some (cfg.preparedImage v t) := by
  have hchw : toChwUint8 (v.imageAt t) = ⟨v.height, v.width, fun c r k => v.frames t r k c⟩ :=
    dif_neg hv.1
  rw [hchw, resizeAndPad, if_pos hv.2]
  rfl

/-- A batch is prepared image by image. -/
theorem prepareVideo_eq {entry : VideoEntry}
    (hres : cfg.Resizable entry.videoHeight entry.videoWidth) (s : ℕ) :
    cfg.prepareVideo s entry =
      some (everyNth s (List.ofFn fun t => cfg.fitted (entry.rearranged t))) := by
  have hfitted : (List.ofFn fun t => cfg.fitted (entry.rearranged t)) =
      (List.ofFn entry.rearranged).map cfg.fitted := by
    rw [List.map_ofFn]
    rfl
  rw [prepareVideo, if_pos hres, hfitted, everyNth_map]
  dsimp only
  rw [List.map_map, List.map_map]
  rfl

theorem prepareVideo_toEntry {v : CameraVideo T} (hv : v.Accepted cfg) (s : ℕ) :
    cfg.prepareVideo s v.toEntry = some (everyNth s (List.ofFn (cfg.preparedImage v))) := by
  rw [prepareVideo_eq hv.2]
  congr 3
  funext t
  exact congrArg cfg.fitted (v.rearranged_toEntry t)

/-! ## All cameras -/

/-- A fallible pass over the keys whose lookups decide whether it succeeds. -/
theorem mapM_lookup {α β γ : Type} {lookup : α → Option β} {f : β → Option γ} {g : β → γ}
    {keys : List α} (h : ∀ key ∈ keys, ∀ v ∈ lookup key, f v = some (g v)) :
    keys.mapM (fun key => lookup key >>= f) = (keys.mapM lookup).map (List.map g) := by
  induction keys with
  | nil => rfl
  | cons key keys ih =>
      rw [List.mapM_cons, List.mapM_cons, ih fun k hk => h k (List.mem_cons_of_mem key hk)]
      cases hv : lookup key with
      | none => rfl
      | some v =>
          have hf := h key List.mem_cons_self v hv
          cases keys.mapM lookup <;> simp [hf]

theorem stackLists_videos {views : List (CameraVideo T)} (hviews : views ≠ []) :
    stackLists (views.map fun v => List.ofFn (cfg.preparedImage v)) =
      some (List.ofFn fun t => views.map fun v => cfg.preparedImage v t) :=
  stackLists_ofFn hviews _

/-- **One pipeline for training and serving.** Outside the mode `frame`, what
`prepare_frame` makes of the cameras' images at time `t` is frame `t` of what
`_cat_video_images` makes of their videos. -/
theorem prepareFrame_eq_catVideoImages (hmode : cfg.multiViewImageMode ≠ .frame)
    {usedVideoKeys : List String} {cameras : String → Option (CameraVideo T)}
    (hcameras : ∀ key ∈ usedVideoKeys, ∀ v ∈ cameras key, v.Accepted cfg) (t : Fin T) :
    cfg.prepareFrame usedVideoKeys (fun key => (cameras key).map (·.imageAt t)) =
      (cfg.catVideoImages 1 usedVideoKeys (fun key => (cameras key).map CameraVideo.toEntry)).bind
        (·[(t : ℕ)]?) := by
  have hserve : usedVideoKeys.mapM (fun key => ((cameras key).map (·.imageAt t)) >>=
      fun image => cfg.resizeAndPad (toChwUint8 image).pixels) =
      (usedVideoKeys.mapM cameras).map (List.map (cfg.preparedImage · t)) := by
    rw [← mapM_lookup (f := fun v => cfg.resizeAndPad (toChwUint8 (v.imageAt t)).pixels)]
    · congr 1
      funext key
      cases cameras key <;> rfl
    · intro key hkey v hv
      exact resizeAndPad_imageAt (hcameras key hkey v hv) t
  have htrain : usedVideoKeys.mapM (fun key => ((cameras key).map CameraVideo.toEntry) >>=
      fun entry => if (1 : ℕ) = 0 then none else cfg.prepareVideo 1 entry) =
      (usedVideoKeys.mapM cameras).map (List.map fun v => List.ofFn (cfg.preparedImage v)) := by
    rw [← mapM_lookup (f := fun v => cfg.prepareVideo 1 v.toEntry)]
    · congr 1
      funext key
      cases cameras key <;> rfl
    · intro key hkey v hv
      rw [prepareVideo_toEntry (hcameras key hkey v hv), everyNth_one]
  unfold prepareFrame catVideoImages
  rw [hserve, htrain]
  cases usedVideoKeys.mapM cameras with
  | none => rfl
  | some views =>
      by_cases hviews : views = []
      · subst hviews
        cases hm : cfg.multiViewImageMode <;> rfl
      · have hstack : stackLists (views.map fun v => List.ofFn (cfg.preparedImage v)) =
            some (List.ofFn fun t => views.map fun v => cfg.preparedImage v t) :=
          stackLists_videos hviews
        have hne : views.map (cfg.preparedImage · t) ≠ [] := by simpa using hviews
        cases hm : cfg.multiViewImageMode with
        | frame => exact absurd hm hmode
        | vertical => simp [mergeMultiViewImages, hstack, hne]
        | tokenConcat => simp [mergeMultiViewImages, hstack, hne]
        | first =>
            cases views with
            | nil => exact absurd rfl hviews
            | cons v views => simp [mergeMultiViewImages]

/-! ## The frames of a segment -/

/-- The videos of all cameras, with `N` frames each. -/
def HasVideos (cfg : ImageConfig K) (usedVideoKeys : List String)
    (dataDict : String → Option VideoEntry) (N : ℕ) : Prop :=
  usedVideoKeys ≠ [] ∧ ∀ key ∈ usedVideoKeys, ∃ entry, dataDict key = some entry ∧
    entry.videoNumFrames = N ∧ cfg.Resizable entry.videoHeight entry.videoWidth

/-- A stride keeps the frames `0`, `s`, `2 * s`, … of every camera. -/
theorem prepareVideos_spec {s N : ℕ} (hs : 1 ≤ s) {usedVideoKeys : List String}
    {dataDict : String → Option VideoEntry} (hdata : cfg.HasVideos usedVideoKeys dataDict N) :
    ∃ imageLst, (usedVideoKeys.mapM fun key => do
        let entry ← dataDict key
        if s = 0 then none else cfg.prepareVideo s entry) = some imageLst ∧
      imageLst.length = usedVideoKeys.length ∧
      (∀ images ∈ imageLst, images.length = (N + s - 1) / s) ∧
      ∀ (v f : ℕ) key entry, usedVideoKeys[v]? = some key → dataDict key = some entry →
        f < (N + s - 1) / s → ∃ h : f * s < entry.videoNumFrames,
          (imageLst[v]?).bind (·[f]?) = some (cfg.fitted (entry.rearranged ⟨f * s, h⟩)) := by
  have hone : ∀ key ∈ usedVideoKeys, ∀ entry, dataDict key = some entry →
      (do
        let entry ← dataDict key
        if s = 0 then none else cfg.prepareVideo s entry) =
        some (everyNth s (List.ofFn fun t => cfg.fitted (entry.rearranged t))) ∧
      entry.videoNumFrames = N := by
    intro key hkey entry hentry
    obtain ⟨entry', hentry', hN, hres⟩ := hdata.2 key hkey
    obtain rfl := Option.some_inj.mp (hentry.symm.trans hentry')
    refine ⟨?_, hN⟩
    rw [hentry, Option.bind_eq_bind, Option.bind_some, if_neg (by omega), prepareVideo_eq hres]
  obtain ⟨imageLst, himages⟩ : ∃ imageLst, (usedVideoKeys.mapM fun key => do
      let entry ← dataDict key
      if s = 0 then none else cfg.prepareVideo s entry) = some imageLst := by
    apply exists_mapM
    intro key hkey
    obtain ⟨entry, hentry, -⟩ := hdata.2 key hkey
    exact ⟨_, (hone key hkey entry hentry).1⟩
  refine ⟨imageLst, himages, length_of_mapM himages, ?_, ?_⟩
  · intro images hmem
    obtain ⟨v, hv⟩ := List.getElem?_of_mem hmem
    have hget := getElem?_of_mapM himages v
    rw [hv] at hget
    obtain ⟨key, hkey, himage⟩ := Option.bind_eq_some_iff.mp hget.symm
    obtain ⟨entry, hentry, -⟩ := hdata.2 key (List.mem_of_getElem? hkey)
    obtain ⟨hprep, hN⟩ := hone key (List.mem_of_getElem? hkey) entry hentry
    obtain rfl := Option.some_inj.mp (hprep.symm.trans himage)
    rw [length_everyNth hs, List.length_ofFn, hN]
  · intro v f key entry hkey hentry hf
    obtain ⟨hprep, hN⟩ := hone key (List.mem_of_getElem? hkey) entry hentry
    have hlt : f * s < entry.videoNumFrames := hN.symm ▸ mul_lt_of_lt_ceil hs hf
    refine ⟨hlt, ?_⟩
    rw [getElem?_of_mapM himages v, hkey, Option.bind_some, hprep, Option.bind_some,
      getElem?_everyNth hs (by rwa [List.length_ofFn, hN]), List.getElem?_ofFn, dif_pos hlt]

/-- The number of frames of an item, and in the mode `frame` the view and the
time that each of them shows. -/
theorem catVideoImages_spec {s N : ℕ} (hs : 1 ≤ s) {usedVideoKeys : List String}
    {dataDict : String → Option VideoEntry} (hdata : cfg.HasVideos usedVideoKeys dataDict N) :
    ∃ frames, cfg.catVideoImages s usedVideoKeys dataDict = some frames ∧
      (cfg.multiViewImageMode ≠ .frame → frames.length = (N + s - 1) / s) ∧
      (cfg.multiViewImageMode = .frame →
        frames.length = (N + s - 1) / s * usedVideoKeys.length ∧
        ∀ (v f : ℕ) key entry, usedVideoKeys[v]? = some key → dataDict key = some entry →
          f < (N + s - 1) / s → ∃ h : f * s < entry.videoNumFrames,
            frames[f * usedVideoKeys.length + v]? =
              some (.image _ (cfg.fitted (entry.rearranged ⟨f * s, h⟩)))) := by
  obtain ⟨imageLst, himages, hcount, hlen, hget⟩ := prepareVideos_spec hs hdata
  have hne : imageLst ≠ [] := by
    rintro rfl
    exact hdata.1 (List.length_eq_zero_iff.mp hcount.symm)
  obtain ⟨stack, hstack, hstacklen, hcolumns⟩ := stackLists_spec hne hlen
  unfold catVideoImages
  rw [himages, Option.bind_eq_bind, Option.bind_some]
  cases hmode : cfg.multiViewImageMode with
  | vertical =>
      refine ⟨_, congrArg (Option.map _) hstack, ?_, ?_⟩
      · intro _
        rw [List.length_map, hstacklen]
      · rintro ⟨⟩
  | tokenConcat =>
      refine ⟨_, congrArg (Option.map _) hstack, ?_, ?_⟩
      · intro _
        rw [List.length_map, hstacklen]
      · rintro ⟨⟩
  | first =>
      obtain ⟨images, rest, rfl⟩ := List.exists_cons_of_ne_nil hne
      refine ⟨_, rfl, ?_, ?_⟩
      · intro _
        rw [List.length_map, hlen images List.mem_cons_self]
      · rintro ⟨⟩
  | frame =>
      have hblocks : ∀ column ∈ stack,
          (column.map fun image =>
            (.image _ image : Frame cfg.imageHeight cfg.imageWidth)).length =
            usedVideoKeys.length := by
        intro column hmem
        obtain ⟨t, ht⟩ := List.getElem?_of_mem hmem
        have hlt : t < (N + s - 1) / s := hstacklen ▸ (List.getElem?_eq_some_iff.mp ht).1
        rw [List.length_map, ← hcount]
        exact length_of_mapM ((hcolumns t hlt).symm.trans ht)
      refine ⟨_, congrArg (Option.map _) hstack, fun h => absurd rfl h, ?_⟩
      intro _
      refine ⟨by rw [length_flatMap_blocks hblocks, hstacklen], ?_⟩
      intro v f key entry hkey hentry hf
      obtain ⟨hlt, himage⟩ := hget v f key entry hkey hentry hf
      refine ⟨hlt, ?_⟩
      have hv := (List.getElem?_eq_some_iff.mp hkey).1
      have hf' : f < stack.length := hstacklen.symm ▸ hf
      have hcolumn := getElem?_of_mapM ((hcolumns f hf).symm.trans (List.getElem?_eq_getElem hf')) v
      rw [getElem?_flatMap_blocks hblocks hv, List.getElem?_eq_getElem hf', Option.bind_some,
        List.getElem?_map, hcolumn, himage]
      rfl

variable (cfg) in
/-- **Training and serving prepare images identically.** The scaled image fits
the target and fills one axis, the paddings fill the rest, and the two pipelines
give the same frame at every time. -/
theorem images_prepared_alike :
    (∀ h w : ℕ, 1 ≤ h → 1 ≤ w →
      Fits cfg.imageHeight (cfg.newSize h w).1 ∧ Fits cfg.imageWidth (cfg.newSize h w).2 ∧
      ((cfg.newSize h w).1 = cfg.imageHeight ∨ (cfg.newSize h w).2 = cfg.imageWidth)) ∧
    (cfg.multiViewImageMode ≠ .frame →
      ∀ (T : ℕ) (usedVideoKeys : List String) (cameras : String → Option (CameraVideo T)),
        (∀ key ∈ usedVideoKeys, ∀ v ∈ cameras key, v.Accepted cfg) → ∀ t : Fin T,
        cfg.prepareFrame usedVideoKeys (fun key => (cameras key).map (·.imageAt t)) =
          (cfg.catVideoImages 1 usedVideoKeys
            (fun key => (cameras key).map CameraVideo.toEntry)).bind (·[(t : ℕ)]?)) := by
  constructor
  · intro h w hh hw
    obtain ⟨⟨hheight, hwidth⟩, hfull⟩ := cfg.newSize_le hh hw
    exact ⟨fits_of_le hheight, fits_of_le hwidth, hfull⟩
  · intro hmode T usedVideoKeys cameras hcameras t
    exact prepareFrame_eq_catVideoImages hmode hcameras t

end Agreement

/-! ## Two cameras of the target's size -/

/-- A target of two by two; an image of that size is not changed by resizing. -/
def twoByTwo : ImageConfig ℚ where
  imageHeight := 2
  imageWidth := 2
  multiViewImageMode := .vertical
  interpolate := fun {h w} image _ _ c r k =>
    if hin : (r : ℕ) < h ∧ (k : ℕ) < w then image c ⟨r, hin.1⟩ ⟨k, hin.2⟩ else 0

/-- A camera that shows one value everywhere. -/
def flatCamera (value : UInt8) : CameraVideo 1 := ⟨2, 2, fun _ _ _ _ => value⟩

theorem newSize_twoByTwo : twoByTwo.newSize 2 2 = (2, 2) := by
  have htwo : roundHalfEven (2 : ℚ) = 2 := by exact_mod_cast roundHalfEven_intCast (K := ℚ) 2
  have hscale : ((2 : ℕ) : ℚ) * min (((2 : ℕ) : ℚ) / (2 : ℕ)) (((2 : ℕ) : ℚ) / (2 : ℕ)) = 2 := by
    norm_num
  show (roundHalfEven _, roundHalfEven _) = ((2 : ℤ), (2 : ℤ))
  rw [show twoByTwo.imageHeight = 2 from rfl, show twoByTwo.imageWidth = 2 from rfl, hscale, htwo]

theorem images_prepared_alike_twoByTwo :
    Fits 2 (twoByTwo.newSize 2 2).1 ∧
      twoByTwo.prepareFrame ["left", "right"] (fun key =>
          (if key = "left" then some (flatCamera 7) else some (flatCamera 9)).map
            (·.imageAt 0)) =
        (twoByTwo.catVideoImages 1 ["left", "right"] (fun key =>
          (if key = "left" then some (flatCamera 7) else some (flatCamera 9)).map
            CameraVideo.toEntry)).bind (·[0]?) := by
  obtain ⟨hsizes, hframes⟩ := images_prepared_alike twoByTwo
  refine ⟨(hsizes 2 2 (by decide) (by decide)).1, hframes (by decide) 1 _ _ ?_ 0⟩
  intro key _ v hv
  have hcamera : ∀ value, (flatCamera value).Accepted twoByTwo := by
    intro value
    refine ⟨(by decide : (2 : ℕ) ≠ 3), one_le_two, one_le_two, ?_, ?_⟩ <;>
      simp [flatCamera, newSize_twoByTwo]
  split at hv
  · obtain rfl := Option.some_inj.mp hv
    exact hcamera 7
  · obtain rfl := Option.some_inj.mp hv
    exact hcamera 9

end ImageConfig

end P2PRdt.Robot

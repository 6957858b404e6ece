import P2PRdt.Lib.Buckets

/-!
# The quantiser of the mouse motion

One axis of the mouse motion is a list of bucket edges and two lists of
centres. The edges are read as the decimals they are written as. A decoded
value is a centre, or a sample between the integer bounds of the bucket that
is then rounded. `MouseAxis` carries the proof that its three tables fit
together, and from it every decoded value lies in the bucket it stands for.
-/

namespace P2PRdt.Data

open Lib

/-! ## Bounds of a bucket -/

/-- The inner bucket without the points next to its ends that belong to its
neighbours. -/
def obtainLowerUpperBound (lb ub : ℚ) : ℚ × ℚ :=
  if lb < 0 ∧ ub < 0 then (lb + 0.1, ub + 0.1 - 1)
  else if lb < 0 ∧ ub = 0 then (0, 0)
  else if lb = 0 ∧ 0 < ub then (lb + 1, ub)
  else (lb + 1, ub)

/-- The bounds between which bucket `bin` is sampled. -/
def bounds (edges : List ℚ) (bin : ℕ) : Option (ℚ × ℚ) := do
  let lb ← edges[bin - 1]?
  let ub ← edges[bin]?
  return obtainLowerUpperBound lb ub

/-- The bounds are integers of bucket `bin`, the upper one unless it is not
used. -/
def boundsInBin (edges : List ℚ) (bin : ℕ) (b : ℚ × ℚ) : Bool :=
  b.1 = ⌊b.1⌋ ∧ bucketize edges b.1 = bin ∧
    (b.1 < b.2 → b.2 = ⌊b.2⌋ ∧ bucketize edges b.2 = bin)

/-! ## The tables -/

/-- The edges and centres of one axis. Bucket 0 and the last bucket are those
outside all edges. -/
structure MouseAxis where
  binEdges : List ℚ
  binCenters : List ℤ
  binConservativeCenters : List ℤ
  centers_in_bin : binCenters.map (fun c : ℤ => bucketize binEdges (c : ℚ)) =
    List.range (binEdges.length + 1)
  conservative_in_bin : binConservativeCenters.map (fun c : ℤ => bucketize binEdges (c : ℚ)) =
    List.range (binEdges.length + 1)
  below_in_bin : binEdges.head?.any fun e =>
    bucketize binEdges (roundHalfEven (e - 1) : ℚ) = 0
  above_in_bin : binEdges.getLast?.any fun e =>
    bucketize binEdges (roundHalfEven (e + 1) : ℚ) = binEdges.length
  bounds_in_bin : ∀ bin < binEdges.length, 0 < bin →
    (bounds binEdges bin).any (boundsInBin binEdges bin)

def mouseX : MouseAxis where
  binEdges :=
    [-500.1, -144.1, -76.1, -46.1, -29.1, -18.1, -11.1, -6.1, -3.1, -1.1, -0.1, 0, 1, 3, 6, 11,
     18, 29, 46, 76, 144, 500]
  binCenters :=
    [-501, -322, -110, -61, -38, -24, -15, -9, -5, -2, -1, 0, 1, 2, 5, 9, 15, 24, 38, 61, 110,
     322, 501]
  binConservativeCenters :=
    [-501, -145, -77, -47, -30, -19, -12, -7, -4, -2, -1, 0, 1, 2, 4, 7, 12, 19, 30, 47, 77, 145,
     501]
  centers_in_bin := by decide +kernel
  conservative_in_bin := by decide +kernel
  below_in_bin := by decide +kernel
  above_in_bin := by decide +kernel
  bounds_in_bin := by decide +kernel

def mouseY : MouseAxis where
  binEdges := [-150.1, -24.1, -12.1, -7.1, -4.1, -3.1, -1.1, -0.1, 0, 1, 3, 4, 7, 12, 24, 150]
  binCenters := [-151, -87, -18, -10, -6, -4, -2, -1, 0, 1, 2, 4, 6, 10, 18, 87, 151]
  binConservativeCenters := [-151, -25, -13, -8, -5, -4, -2, -1, 0, 1, 2, 4, 5, 8, 13, 25, 151]
  centers_in_bin := by decide +kernel
  conservative_in_bin := by decide +kernel
  below_in_bin := by decide +kernel
  above_in_bin := by decide +kernel
  bounds_in_bin := by decide +kernel

/-! ## Encoding and decoding one axis -/

/-- How a bucket is turned into a motion. `draw lb ub` is what `trunc_normal_`
returns for these bounds. -/
inductive AxisSampling where
  | mean
  | conservative
  | truncatedNormal (draw : ℚ → ℚ → ℚ)

/-- `trunc_normal_` clamps what it returns to the bounds it is given. -/
def AxisSampling.Clamped : AxisSampling → Prop
  | .truncatedNormal draw => ∀ lb ub, lb ≤ ub → lb ≤ draw lb ub ∧ draw lb ub ≤ ub
  | _ => True

namespace MouseAxis

def nBins (axis : MouseAxis) : ℕ := axis.binEdges.length + 1

def toBin (axis : MouseAxis) (delta : ℤ) : ℕ := bucketize axis.binEdges (delta : ℚ)

/-- The value before rounding in the branch for `truncated_normal`. -/
def sample (axis : MouseAxis) (draw : ℚ → ℚ → ℚ) (bin : ℕ) : Option ℚ :=
  if bin = 0 then axis.binEdges.head?.map (· - 1)
  else if bin = axis.nBins - 1 then axis.binEdges.getLast?.map (· + 1)
  else (bounds axis.binEdges bin).map fun b => if b.2 ≤ b.1 then b.1 else draw b.1 b.2

def ofBin (axis : MouseAxis) (sampling : AxisSampling) (bin : ℕ) : Option ℤ :=
  match sampling with
  | .mean => axis.binCenters[bin]?
  | .conservative => axis.binConservativeCenters[bin]?
  | .truncatedNormal draw => (axis.sample draw bin).map roundHalfEven

theorem toBin_lt (axis : MouseAxis) (delta : ℤ) : axis.toBin delta < axis.nBins :=
  Nat.lt_succ_of_le (bucketize_le_length _ _)

theorem centers_toBin {axis : MouseAxis} {centers : List ℤ}
    (h : centers.map (fun c : ℤ => bucketize axis.binEdges (c : ℚ)) =
      List.range (axis.binEdges.length + 1)) {bin : ℕ} (hbin : bin < axis.nBins) :
    ∃ d, centers[bin]? = some d ∧ axis.toBin d = bin := by
  have hget := congrArg (·[bin]?) h
  rw [List.getElem?_map, List.getElem?_range (show bin < axis.binEdges.length + 1 from hbin)]
    at hget
  obtain ⟨d, hd, hb⟩ := Option.map_eq_some_iff.mp hget
  exact ⟨d, hd, hb⟩

/-- A sample between the bounds of a bucket rounds to a value in the bucket. -/
theorem bounds_toBin {axis : MouseAxis} {draw : ℚ → ℚ → ℚ}
    (hdraw : ∀ lb ub, lb ≤ ub → lb ≤ draw lb ub ∧ draw lb ub ≤ ub) {bin : ℕ}
    {b : ℚ × ℚ} (hb : boundsInBin axis.binEdges bin b = true) :
    axis.toBin (roundHalfEven (if b.2 ≤ b.1 then b.1 else draw b.1 b.2)) = bin := by
  obtain ⟨hlow, hlowbin, hup⟩ := of_decide_eq_true hb
  split
  · rw [hlow, roundHalfEven_intCast, toBin, ← hlow]
    exact hlowbin
  · rename_i hlt
    obtain ⟨hupint, hupbin⟩ := hup (not_le.mp hlt)
    obtain ⟨hge, hle⟩ := hdraw b.1 b.2 (not_le.mp hlt).le
    refine bucketize_eq_of_between ?_ ?_ hlowbin hupbin
    · rw [hlow]
      exact_mod_cast le_roundHalfEven (hlow ▸ hge)
    · rw [hupint]
      exact_mod_cast roundHalfEven_le (hupint ▸ hle)

/-- **Every decoded value lies in its bucket.** -/
theorem toBin_ofBin (axis : MouseAxis) {sampling : AxisSampling} (hs : sampling.Clamped)
    {bin : ℕ} (hbin : bin < axis.nBins) :
    ∃ d, axis.ofBin sampling bin = some d ∧ axis.toBin d = bin := by
  cases sampling with
  | mean => exact centers_toBin axis.centers_in_bin hbin
  | conservative => exact centers_toBin axis.conservative_in_bin hbin
  | truncatedNormal draw =>
      simp only [ofBin, sample]
      split
      · rename_i hzero
        obtain ⟨e, he, hbelow⟩ := (Option.any_eq_true _ _).mp axis.below_in_bin
        rw [he]
        exact ⟨_, rfl, hzero ▸ of_decide_eq_true hbelow⟩
      · rename_i hpos
        split
        · rename_i hlast
          obtain ⟨e, he, habove⟩ := (Option.any_eq_true _ _).mp axis.above_in_bin
          rw [he]
          exact ⟨_, rfl, hlast ▸ of_decide_eq_true habove⟩
        · rename_i hinner
          have hlt : bin < axis.binEdges.length := by
            unfold nBins at hbin hinner
            omega
          obtain ⟨b, hb, hin⟩ := (Option.any_eq_true _ _).mp
            (axis.bounds_in_bin bin hlt (Nat.pos_of_ne_zero hpos))
          rw [hb]
          exact ⟨_, rfl, bounds_toBin hs hin⟩

end MouseAxis

end P2PRdt.Data

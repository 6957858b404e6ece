import P2PRdt.Robot.Pose

/-!
# Sanitizing as a repair

`sanitize_compact_pose_16d` on arrays that may hold NaN and infinite entries, with
its flag. With a finite fallback it computes what the sanitizing of `Robot.Pose`
computes. Its result is a pose in which every quaternion is close to a unit
quaternion of its direction; the flag says whether anything had to be changed,
and a second pass changes nothing.
-/

namespace P2PRdt.Robot

open Lib Quaternion

/-! ## Arrays -/

section Arrays

variable {α : Type}

/-- `v[start:start + n]`. -/
def slice {m : ℕ} (v : Fin m → α) (start n : ℕ) (h : start + n ≤ m) : Fin n → α :=
  fun i => v ⟨start + i, (Nat.add_lt_add_left i.isLt start).trans_le h⟩

def poseOfArray (v : Fin 8 → α) : PoseOf α (Fin 4 → α) where
  trans := slice v 0 3 (by decide)
  quat := slice v 3 4 (by decide)
  gripper := v (Fin.last 7)

/-- `np.concatenate([translation, quaternion, gripper])`. -/
def arrayOfPose (pose : PoseOf α (Fin 4 → α)) : Fin 8 → α :=
  Fin.snoc (Fin.append pose.trans pose.quat) pose.gripper

def armsOfArray (v : Fin 16 → α) : Compact (PoseOf α (Fin 4 → α)) where
  left := poseOfArray (slice v 0 8 (by decide))
  right := poseOfArray (slice v 8 8 (by decide))

/-- `np.concatenate([left, right])`. -/
def arrayOfArms (c : Compact (PoseOf α (Fin 4 → α))) : Fin 16 → α :=
  Fin.append (arrayOfPose c.left) (arrayOfPose c.right)

@[simp] theorem poseOfArray_arrayOfPose (pose : PoseOf α (Fin 4 → α)) :
    poseOfArray (arrayOfPose pose) = pose := by
  apply PoseOf.ext
  · ext i
    fin_cases i <;> rfl
  · ext i
    fin_cases i <;> rfl
  · rfl

theorem slice_append_left (u v : Fin 8 → α) :
    slice (Fin.append u v : Fin 16 → α) 0 8 (by decide) = u := by
  ext i
  fin_cases i <;> rfl

theorem slice_append_right (u v : Fin 8 → α) :
    slice (Fin.append u v : Fin 16 → α) 8 8 (by decide) = v := by
  ext i
  fin_cases i <;> rfl

@[simp] theorem armsOfArray_arrayOfArms (c : Compact (PoseOf α (Fin 4 → α))) :
    armsOfArray (arrayOfArms c) = c := by
  rw [armsOfArray, arrayOfArms, slice_append_left, slice_append_right, poseOfArray_arrayOfPose,
    poseOfArray_arrayOfPose]

@[simp] theorem arrayOfArms_armsOfArray (v : Fin 16 → α) : arrayOfArms (armsOfArray v) = v := by
  ext i
  fin_cases i <;> rfl

end Arrays

/-! ## Entries -/

section Entries

variable {K : Type} [Field K]

/-- A function that keeps the NaN and the infinities, such as division by a norm. -/
def ExtNum.map (f : K → K) : ExtNum K → ExtNum K
  | fin v => fin (f v)
  | x => x

/-- A quaternion of the field as an array. -/
def rawQuat (quat : ℍ[K]) : Fin 4 → ExtNum K := fun i => .fin (xyzwOfQuat quat i)

/-- The finite entries of an array as a quaternion. -/
def quatOfRaw (quat : Fin 4 → ExtNum K) : ℍ[K] := quatOfXyzw fun i => (quat i).nanToNum

@[simp] theorem quatOfRaw_rawQuat (quat : ℍ[K]) : quatOfRaw (rawQuat quat) = quat := rfl

/-- An entry that is kept because it is finite is its value. -/
theorem fin_nanToNum {x : ExtNum K} (h : x.isFinite = true) : ExtNum.fin x.nanToNum = x := by
  cases x with
  | fin v => rfl
  | nan | posInf | negInf => cases h

theorem rawQuat_quatOfRaw {quat : Fin 4 → ExtNum K} (hfinite : ∀ i, (quat i).isFinite = true) :
    rawQuat (quatOfRaw quat) = quat := by
  ext i
  rw [rawQuat, quatOfRaw, xyzwOfQuat_quatOfXyzw, fin_nanToNum (hfinite i)]

def sanitizeRawTrans (trans fallback : Fin 3 → ExtNum K) : (Fin 3 → ExtNum K) × Bool :=
  if ¬∀ i, (trans i).isFinite then (fallback, true) else (trans, false)

def sanitizeRawGripper (gripper fallback : ExtNum K) : ExtNum K × Bool :=
  if ¬gripper.isFinite then (fallback, true) else (gripper, false)

theorem sanitizeRawTrans_eq (trans : Fin 3 → ExtNum K) (fallback : Fin 3 → K) :
    sanitizeRawTrans trans (fun i => .fin (fallback i)) =
      ((fun i => .fin ((sanitizeTrans trans fallback).1 i)), (sanitizeTrans trans fallback).2) := by
  unfold sanitizeRawTrans sanitizeTrans
  by_cases hfinite : ∀ i, (trans i).isFinite = true
  · rw [if_neg (not_not.mpr hfinite), if_pos hfinite]
    exact Prod.ext (funext fun i => (fin_nanToNum (hfinite i)).symm) rfl
  · rw [if_pos hfinite, if_neg hfinite]

theorem sanitizeRawGripper_eq (gripper : ExtNum K) (fallback : K) :
    sanitizeRawGripper gripper (.fin fallback) =
      (.fin (sanitizeGripper gripper fallback).1, (sanitizeGripper gripper fallback).2) := by
  unfold sanitizeRawGripper sanitizeGripper
  by_cases hfinite : gripper.isFinite = true
  · rw [if_neg (not_not.mpr hfinite), if_pos hfinite]
    exact Prod.ext (fin_nanToNum hfinite).symm rfl
  · rw [if_pos hfinite, if_neg hfinite]

end Entries

/-! ## The code on arrays -/

section Raw

variable {K : Type} [Field K] [LinearOrder K] (E : Elementary K)

/-- `np.linalg.norm` of the entries that are finite. -/
def rawNorm (quat : Fin 4 → ExtNum K) : K := quatNorm E.sqrt (quatOfRaw quat)

/-- `_normalize_quaternion`. The norm of finite entries is finite. -/
def rawNormalizeQuaternion (quat : Fin 4 → ExtNum K) : Fin 4 → ExtNum K :=
  if ¬∀ i, (quat i).isFinite then rawQuat 1
  else
    let norm := rawNorm E quat
    if norm < 1 / (10 ^ 8 : ℕ) then rawQuat 1 else fun i => (quat i).map (· / norm)

def sanitizeRawQuat (quat fallback : Fin 4 → ExtNum K) : (Fin 4 → ExtNum K) × Bool :=
  let quatIsInvalid : Bool := (¬∀ i, (quat i).isFinite) ∨ rawNorm E quat < 1 / (10 ^ 8 : ℕ)
  if quatIsInvalid then (rawNormalizeQuaternion E fallback, true)
  else
    let normalizedQuat := rawNormalizeQuaternion E quat
    -- both are finite here
    if !allclose (quatOfRaw normalizedQuat) (quatOfRaw quat) then (normalizedQuat, true)
    else (quat, false)

/-- `sanitize_pose_8d` with its fallback. -/
def sanitizeRawPose8d (pose fallbackPose : Fin 8 → ExtNum K) : (Fin 8 → ExtNum K) × Bool :=
  let pose := poseOfArray pose
  let fallback := poseOfArray fallbackPose
  let trans := sanitizeRawTrans pose.trans fallback.trans
  let quat := sanitizeRawQuat E pose.quat fallback.quat
  let gripper := sanitizeRawGripper pose.gripper fallback.gripper
  (arrayOfPose ⟨trans.1, quat.1, gripper.1⟩, trans.2 || quat.2 || gripper.2)

/-- The fallback when none is given. -/
def defaultFallback16d : Fin 16 → ExtNum K :=
  arrayOfArms ⟨identityPose.toRaw, identityPose.toRaw⟩

/-- `sanitize_compact_pose_16d`. -/
def sanitizeRawCompactPose16d (pose : Fin 16 → ExtNum K)
    (fallbackPose : Option (Fin 16 → ExtNum K)) : (Fin 16 → ExtNum K) × Bool :=
  let fallback := fallbackPose.getD defaultFallback16d
  let left := sanitizeRawPose8d E (slice pose 0 8 (by decide)) (slice fallback 0 8 (by decide))
  let right := sanitizeRawPose8d E (slice pose 8 8 (by decide)) (slice fallback 8 8 (by decide))
  (Fin.append left.1 right.1, left.2 || right.2)

/-! ## The same, over the field -/

/-- Dividing by a norm gives the multiple by its inverse. -/
theorem rawNormalizeQuaternion_rawQuat (quat : ℍ[K]) :
    rawNormalizeQuaternion E (rawQuat quat) = rawQuat (normalizeQuaternion E quat) := by
  have hfinite : ¬¬∀ i, (rawQuat quat i).isFinite = true := fun h => h fun _ => rfl
  have hnorm : rawNorm E (rawQuat quat) = quatNorm E.sqrt quat := rfl
  rw [rawNormalizeQuaternion, if_neg hfinite]
  dsimp only
  by_cases hshort : rawNorm E (rawQuat quat) < 1 / (10 ^ 8 : ℕ)
  · rw [if_pos hshort, normalizeQuaternion, normalizeOr, if_pos (hnorm ▸ hshort)]
  · rw [if_neg hshort, normalizeQuaternion, normalizeOr, if_neg (hnorm ▸ hshort)]
    ext i
    have hentry : xyzwOfQuat ((quatNorm E.sqrt quat)⁻¹ • quat) i =
        xyzwOfQuat quat i / quatNorm E.sqrt quat := by
      rw [div_eq_inv_mul]
      fin_cases i <;> rfl
    exact congrArg ExtNum.fin hentry.symm

theorem sanitizeRawQuat_eq (quat : Fin 4 → ExtNum K) (fallback : ℍ[K]) :
    sanitizeRawQuat E quat (rawQuat fallback) =
      (rawQuat (sanitizeQuat E quat fallback).1, (sanitizeQuat E quat fallback).2) := by
  unfold sanitizeRawQuat sanitizeQuat
  dsimp only [rawNorm]
  rw [← quatOfRaw]
  by_cases hinvalid : (¬∀ i, (quat i).isFinite = true) ∨
      quatNorm E.sqrt (quatOfRaw quat) < 1 / (10 ^ 8 : ℕ)
  · simp only [hinvalid, decide_true, if_true, rawNormalizeQuaternion_rawQuat]
  · obtain ⟨hfinite, -⟩ := not_or.mp hinvalid
    have hquat := rawQuat_quatOfRaw (not_not.mp hfinite)
    have hnormalized : rawNormalizeQuaternion E quat =
        rawQuat (normalizeQuaternion E (quatOfRaw quat)) := by
      rw [← rawNormalizeQuaternion_rawQuat, hquat]
    simp only [hinvalid, decide_false, Bool.false_eq_true, if_false, hnormalized,
      quatOfRaw_rawQuat]
    split
    · rfl
    · rw [hquat]

/-- **Refinement.** With a finite fallback the code on arrays sanitizes as over the
field. -/
theorem sanitizeRawPose8d_eq (pose : Fin 8 → ExtNum K) (fallback : Pose K) :
    sanitizeRawPose8d E pose (arrayOfPose fallback.toRaw) =
      (arrayOfPose (sanitizePose8d E (poseOfArray pose) (some fallback)).1.toRaw,
        (sanitizePose8d E (poseOfArray pose) (some fallback)).2) := by
  have htrans := sanitizeRawTrans_eq (poseOfArray pose).trans fallback.trans
  have hquat := sanitizeRawQuat_eq E (poseOfArray pose).quat fallback.quat
  have hgripper := sanitizeRawGripper_eq (poseOfArray pose).gripper fallback.gripper
  rw [sanitizeRawPose8d, poseOfArray_arrayOfPose]
  have hraw : (fallback.toRaw).quat = rawQuat fallback.quat := rfl
  rw [hraw, hquat]
  dsimp only [PoseOf.toRaw]
  rw [htrans, hgripper]
  rfl

theorem sanitizeRawCompactPose16d_eq (pose : Fin 16 → ExtNum K)
    (fallback : Option (Compact (Pose K))) :
    sanitizeRawCompactPose16d E pose (fallback.map fun c => arrayOfArms (c.map PoseOf.toRaw)) =
      (arrayOfArms ((sanitizeCompactPose16d E (armsOfArray pose) fallback).1.map PoseOf.toRaw),
        (sanitizeCompactPose16d E (armsOfArray pose) fallback).2) := by
  have hfallback : (fallback.map fun c => arrayOfArms (c.map PoseOf.toRaw)).getD
      defaultFallback16d =
        arrayOfArms ((fallback.getD ⟨identityPose, identityPose⟩).map PoseOf.toRaw) := by
    cases fallback <;> rfl
  have hleft : (sanitizePose8d E (armsOfArray pose).left (fallback.map Compact.left)) =
      sanitizePose8d E (armsOfArray pose).left
        (some (fallback.getD ⟨identityPose, identityPose⟩).left) := by
    cases fallback <;> rfl
  have hright : (sanitizePose8d E (armsOfArray pose).right (fallback.map Compact.right)) =
      sanitizePose8d E (armsOfArray pose).right
        (some (fallback.getD ⟨identityPose, identityPose⟩).right) := by
    cases fallback <;> rfl
  rw [sanitizeRawCompactPose16d, hfallback, arrayOfArms, slice_append_left, slice_append_right]
  dsimp only [Compact.map]
  rw [sanitizeRawPose8d_eq, sanitizeRawPose8d_eq, sanitizeCompactPose16d, hleft, hright]
  rfl

end Raw

/-! ## Close to a unit quaternion -/

section Near

variable {K : Type} [Field K] [LinearOrder K]

/-- On the ray of a unit quaternion, and close to it entry by entry. -/
def NearUnit (q : ℍ[K]) : Prop :=
  ∃ u, IsUnitQuat u ∧ (∃ c : K, 0 < c ∧ q = c • u) ∧ allclose u q = true

variable [IsStrictOrderedRing K]

/-- Some entry of a unit quaternion is at least one half. -/
theorem exists_half_le {u : ℍ[K]} (hu : IsUnitQuat u) : ∃ i, 1 / 2 ≤ |xyzwOfQuat u i| := by
  by_contra hsmall
  push Not at hsmall
  have hsquare : ∀ i, xyzwOfQuat u i ^ 2 < 1 / 4 := by
    intro i
    rw [← sq_abs]
    have hpow := pow_lt_pow_left₀ (hsmall i) (abs_nonneg _) two_ne_zero
    norm_num at hpow ⊢
    exact hpow
  have hsum : u.re ^ 2 + u.imI ^ 2 + u.imJ ^ 2 + u.imK ^ 2 = 1 := by
    rw [← normSq_def', hu]
  have h0 : u.imI ^ 2 < 1 / 4 := hsquare 0
  have h1 : u.imJ ^ 2 < 1 / 4 := hsquare 1
  have h2 : u.imK ^ 2 < 1 / 4 := hsquare 2
  have h3 : u.re ^ 2 < 1 / 4 := hsquare 3
  linarith

omit [LinearOrder K] [IsStrictOrderedRing K] in
theorem xyzwOfQuat_smul (c : K) (q : ℍ[K]) (i : Fin 4) :
    xyzwOfQuat (c • q) i = c * xyzwOfQuat q i := by
  fin_cases i <;> rfl

/-- The length of a quaternion that is close to its direction. -/
theorem abs_sub_one_le {u : ℍ[K]} (hu : IsUnitQuat u) {c : K} (hc : 0 < c)
    (hclose : allclose u (c • u) = true) :
    |c - 1| ≤ 2 / (10 ^ 5 : ℕ) + 1 / (10 ^ 5 : ℕ) * c := by
  obtain ⟨i, hi⟩ := exists_half_le hu
  have hclose := of_decide_eq_true hclose i
  rw [xyzwOfQuat_smul, ← one_sub_mul, abs_mul, abs_mul, abs_of_pos hc, abs_sub_comm] at hclose
  have hpos : 0 < |xyzwOfQuat u i| := lt_of_lt_of_le (by norm_num) hi
  have hscaled : |c - 1| * |xyzwOfQuat u i| ≤
      (2 / (10 ^ 5 : ℕ) + 1 / (10 ^ 5 : ℕ) * c) * |xyzwOfQuat u i| := by
    refine hclose.trans ?_
    push_cast
    linarith
  exact le_of_mul_le_mul_right hscaled hpos

variable {E : Elementary K} (hE : IsSqrt E.sqrt)
include hE

/-- What is close to a unit quaternion is long enough to be normalized, and close
to its own direction. -/
theorem nearUnit_iff {q : ℍ[K]} :
    NearUnit q ↔ allclose (normalizeQuaternion E q) q = true := by
  constructor
  · rintro ⟨u, hu, ⟨c, hc, rfl⟩, hclose⟩
    have hnorm : quatNorm E.sqrt (c • u) = c := quatNorm_smul_of_unit hE hc.le hu
    have hlong : ¬quatNorm E.sqrt (c • u) < 1 / (10 ^ 8 : ℕ) := by
      have hbound := (abs_le.mp (abs_sub_one_le hu hc hclose)).1
      rw [hnorm, not_lt]
      push_cast at hbound ⊢
      linarith
    rw [normalizeQuaternion, normalizeOr, if_neg hlong, hnorm, smul_smul, inv_mul_cancel₀ hc.ne',
      one_smul]
    exact hclose
  · intro hclose
    by_cases hshort : quatNorm E.sqrt q < 1 / (10 ^ 8 : ℕ)
    · -- the identity, which is taken for a short quaternion, is far from it
      rw [normalizeQuaternion, normalizeOr, if_pos hshort] at hclose
      have hentry : |1 - q.re| ≤ 1 / (10 ^ 5 : ℕ) + 1 / (10 ^ 5 : ℕ) * |q.re| :=
        of_decide_eq_true hclose 3
      have hre := abs_re_le_quatNorm hE q
      have hfar := le_abs_self (1 - q.re)
      have hself := le_abs_self q.re
      push_cast at hentry hshort
      linarith
    · have hpos : 0 < quatNorm E.sqrt q := lt_of_lt_of_le (by positivity) (not_lt.mp hshort)
      refine ⟨normalizeQuaternion E q, isUnit_normalizeQuaternion hE q, ⟨_, hpos, ?_⟩, hclose⟩
      rw [normalizeQuaternion, normalizeOr, if_neg hshort, smul_smul, mul_inv_cancel₀ hpos.ne',
        one_smul]

theorem nearUnit_of_unit {q : ℍ[K]} (hq : IsUnitQuat q) : NearUnit q := by
  rw [nearUnit_iff hE, normalizeQuaternion_of_unit hE hq, allclose]
  simp only [sub_self, abs_zero, decide_eq_true_eq]
  intro i
  positivity

theorem abs_quatNorm_sub_one_le {q : ℍ[K]} (h : NearUnit q) :
    |quatNorm E.sqrt q - 1| ≤
      2 / (10 ^ 5 : ℕ) + 1 / (10 ^ 5 : ℕ) * quatNorm E.sqrt q := by
  rcases h with ⟨u, hu, ⟨c, hc, rfl⟩, hclose⟩
  rw [quatNorm_smul_of_unit hE hc.le hu]
  exact abs_sub_one_le hu hc hclose

theorem long_of_nearUnit {q : ℍ[K]} (h : NearUnit q) : 1 / (10 ^ 8 : ℕ) ≤ quatNorm E.sqrt q := by
  have hbound := (abs_le.mp (abs_quatNorm_sub_one_le hE h)).1
  push_cast at hbound ⊢
  linarith

/-- What becomes of a quaternion. -/
theorem sanitizeQuat_spec (quat : Fin 4 → ExtNum K) (fallback : ℍ[K]) :
    NearUnit (sanitizeQuat E quat fallback).1 ∧
      ((sanitizeQuat E quat fallback).2 = false ↔
        (∀ i, (quat i).isFinite = true) ∧ NearUnit (quatOfRaw quat)) ∧
      ((∀ i, (quat i).isFinite = true) → 1 / (10 ^ 8 : ℕ) ≤ rawNorm E quat →
        ∃ c : K, 0 < c ∧ (sanitizeQuat E quat fallback).1 = c • quatOfRaw quat) := by
  unfold sanitizeQuat
  dsimp only
  rw [← quatOfRaw]
  by_cases hinvalid : (¬∀ i, (quat i).isFinite = true) ∨
      quatNorm E.sqrt (quatOfRaw quat) < 1 / (10 ^ 8 : ℕ)
  · simp only [hinvalid, decide_true, if_true]
    refine ⟨nearUnit_of_unit hE (isUnit_normalizeQuaternion hE fallback), ?_, ?_⟩
    · refine iff_of_false Bool.noConfusion ?_
      rintro ⟨hfinite, hnear⟩
      rcases hinvalid with hnot | hshort
      · exact hnot hfinite
      · exact hshort.not_ge (long_of_nearUnit hE hnear)
    · intro hfinite hlong
      rcases hinvalid with hnot | hshort
      · exact absurd hfinite hnot
      · exact absurd hlong hshort.not_ge
  · simp only [hinvalid, decide_false, Bool.false_eq_true, if_false]
    obtain ⟨hfinite, hnotShort⟩ := not_or.mp hinvalid
    have hfinite := not_not.mp hfinite
    by_cases hclose : allclose (normalizeQuaternion E (quatOfRaw quat)) (quatOfRaw quat) = true
    · have hnear := (nearUnit_iff hE).mpr hclose
      simp only [hclose, Bool.not_true, Bool.false_eq_true, if_false]
      exact ⟨hnear, iff_of_true trivial ⟨hfinite, hnear⟩,
        fun _ _ => ⟨1, one_pos, (one_smul K _).symm⟩⟩
    · have hnear : ¬NearUnit (quatOfRaw quat) := fun h => hclose ((nearUnit_iff hE).mp h)
      simp only [hclose, Bool.not_false, if_true]
      refine ⟨nearUnit_of_unit hE (isUnit_normalizeQuaternion hE _), ?_, ?_⟩
      · exact iff_of_false Bool.noConfusion fun h => hnear h.2
      · intro _ hlong
        have hpos : 0 < quatNorm E.sqrt (quatOfRaw quat) := lt_of_lt_of_le (by positivity) hlong
        refine ⟨_, inv_pos.mpr hpos, ?_⟩
        rw [normalizeQuaternion, normalizeOr, if_neg hnotShort]

end Near

/-! ## The repair -/

section Entries

variable {α : Type} {p : α → Prop}

/-- Every entry of a pose. -/
def PoseOf.Forall (p : α → Prop) (pose : PoseOf α (Fin 4 → α)) : Prop :=
  (∀ i, p (pose.trans i)) ∧ (∀ i, p (pose.quat i)) ∧ p pose.gripper

theorem forall_arrayOfPose {pose : PoseOf α (Fin 4 → α)} :
    (∀ i, p (arrayOfPose pose i)) ↔ pose.Forall p := by
  rw [arrayOfPose, Fin.forall_fin_succ']
  simp only [Fin.snoc_castSucc, Fin.snoc_last]
  constructor
  · rintro ⟨hentries, hgripper⟩
    refine ⟨fun i => ?_, fun i => ?_, hgripper⟩
    · simpa only [Fin.append_left] using hentries (Fin.castAdd 4 i)
    · simpa only [Fin.append_right] using hentries (Fin.natAdd 3 i)
  · rintro ⟨htrans, hquat, hgripper⟩
    refine ⟨fun i => ?_, hgripper⟩
    refine Fin.addCases (m := 3) (n := 4)
      (motive := fun i => p (Fin.append pose.trans pose.quat i)) (fun i => ?_) (fun i => ?_) i
    · simpa only [Fin.append_left] using htrans i
    · simpa only [Fin.append_right] using hquat i

theorem forall_arrayOfArms {c : Compact (PoseOf α (Fin 4 → α))} :
    (∀ i, p (arrayOfArms c i)) ↔ c.left.Forall p ∧ c.right.Forall p := by
  rw [← forall_arrayOfPose, ← forall_arrayOfPose]
  constructor
  · intro h
    refine ⟨fun i => ?_, fun i => ?_⟩
    · simpa only [arrayOfArms, Fin.append_left] using h (Fin.castAdd 8 i)
    · simpa only [arrayOfArms, Fin.append_right] using h (Fin.natAdd 8 i)
  · rintro ⟨hleft, hright⟩ i
    refine Fin.addCases (m := 8) (n := 8)
      (motive := fun i => p (arrayOfArms c i)) (fun i => ?_) (fun i => ?_) i
    · simpa only [arrayOfArms, Fin.append_left] using hleft i
    · simpa only [arrayOfArms, Fin.append_right] using hright i

end Entries

section Repair

variable {K : Type} [Field K] [LinearOrder K]

/-- Nothing has to be repaired. -/
def PoseOf.Sane (pose : RawPose K) : Prop :=
  pose.Forall (·.isFinite = true) ∧ NearUnit (quatOfRaw pose.quat)

/-- `result` is sane, and what was usable in `pose` is still there. -/
structure Repaired (E : Elementary K) (pose result : RawPose K) : Prop where
  sane : result.Sane
  norm : |quatNorm E.sqrt (quatOfRaw result.quat) - 1| ≤
    2 / (10 ^ 5 : ℕ) + 1 / (10 ^ 5 : ℕ) * quatNorm E.sqrt (quatOfRaw result.quat)
  trans : (∀ i, (pose.trans i).isFinite = true) → result.trans = pose.trans
  direction : (∀ i, (pose.quat i).isFinite = true) → 1 / (10 ^ 8 : ℕ) ≤ rawNorm E pose.quat →
    ∃ c : K, 0 < c ∧ quatOfRaw result.quat = c • quatOfRaw pose.quat
  gripper : pose.gripper.isFinite = true → result.gripper = pose.gripper

variable [IsStrictOrderedRing K] {E : Elementary K} (hE : IsSqrt E.sqrt)
include hE

/-- The flag is truthful. -/
theorem sanitizePose8d_flag (pose : RawPose K) (fallback : Option (Pose K)) :
    (sanitizePose8d E pose fallback).2 = false ↔ pose.Sane := by
  have hquat := (sanitizeQuat_spec hE pose.quat (fallback.getD identityPose).quat).2.1
  have htrans : (sanitizeTrans pose.trans (fallback.getD identityPose).trans).2 = false ↔
      ∀ i, (pose.trans i).isFinite = true := by
    unfold sanitizeTrans
    split
    · exact iff_of_true rfl ‹_›
    · exact iff_of_false Bool.noConfusion ‹_›
  have hgripper : (sanitizeGripper pose.gripper (fallback.getD identityPose).gripper).2 = false ↔
      pose.gripper.isFinite = true := by
    unfold sanitizeGripper
    split
    · exact iff_of_true rfl ‹_›
    · exact iff_of_false Bool.noConfusion ‹_›
  rw [sanitizePose8d, Bool.or_eq_false_iff, Bool.or_eq_false_iff, htrans, hquat, hgripper]
  constructor
  · rintro ⟨⟨hfiniteTrans, hfiniteQuat, hnear⟩, hfiniteGripper⟩
    exact ⟨⟨hfiniteTrans, hfiniteQuat, hfiniteGripper⟩, hnear⟩
  · rintro ⟨⟨hfiniteTrans, hfiniteQuat, hfiniteGripper⟩, hnear⟩
    exact ⟨⟨hfiniteTrans, hfiniteQuat, hnear⟩, hfiniteGripper⟩

omit [LinearOrder K] [IsStrictOrderedRing K] hE in
theorem forall_isFinite_toRaw (pose : Pose K) : pose.toRaw.Forall (·.isFinite = true) :=
  ⟨fun _ => rfl, fun _ => rfl, rfl⟩

/-- A pose that is not reported as changed is not changed. -/
theorem sanitizePose8d_same {pose : RawPose K} {fallback : Option (Pose K)}
    (h : (sanitizePose8d E pose fallback).2 = false) :
    (sanitizePose8d E pose fallback).1.toRaw = pose := by
  obtain ⟨⟨htrans, hquat, hgripper⟩, -⟩ := (sanitizePose8d_flag hE pose fallback).mp h
  obtain ⟨p, rfl⟩ : ∃ p : Pose K, p.toRaw = pose := by
    refine ⟨⟨fun i => (pose.trans i).nanToNum, quatOfRaw pose.quat, pose.gripper.nanToNum⟩, ?_⟩
    apply PoseOf.ext
    · exact funext fun i => fin_nanToNum (htrans i)
    · exact rawQuat_quatOfRaw hquat
    · exact fin_nanToNum hgripper
  rw [sanitizePose8d_unchanged h]

theorem repaired_sanitizePose8d (pose : RawPose K) (fallback : Option (Pose K)) :
    Repaired E pose (sanitizePose8d E pose fallback).1.toRaw := by
  obtain ⟨hnear, -, hdirection⟩ :=
    sanitizeQuat_spec hE pose.quat (fallback.getD identityPose).quat
  refine ⟨⟨forall_isFinite_toRaw _, hnear⟩, abs_quatNorm_sub_one_le hE hnear, ?_, hdirection, ?_⟩
  · intro hfinite
    have hkept : (sanitizePose8d E pose fallback).1.trans = fun i => (pose.trans i).nanToNum := by
      simp only [sanitizePose8d, sanitizeTrans, if_pos hfinite]
    ext i
    show ExtNum.fin ((sanitizePose8d E pose fallback).1.trans i) = pose.trans i
    rw [hkept, fin_nanToNum (hfinite i)]
  · intro hfinite
    have hkept : (sanitizePose8d E pose fallback).1.gripper = pose.gripper.nanToNum := by
      simp only [sanitizePose8d, sanitizeGripper, if_pos hfinite]
    show ExtNum.fin (sanitizePose8d E pose fallback).1.gripper = pose.gripper
    rw [hkept, fin_nanToNum hfinite]

theorem sanitizeCompactPose16d_flag (c : Compact (RawPose K))
    (fallback : Option (Compact (Pose K))) :
    (sanitizeCompactPose16d E c fallback).2 = false ↔ c.left.Sane ∧ c.right.Sane := by
  rw [sanitizeCompactPose16d, Bool.or_eq_false_iff, sanitizePose8d_flag hE,
    sanitizePose8d_flag hE]

theorem sanitizeCompactPose16d_same {c : Compact (RawPose K)}
    {fallback : Option (Compact (Pose K))} (h : (sanitizeCompactPose16d E c fallback).2 = false) :
    (sanitizeCompactPose16d E c fallback).1.map PoseOf.toRaw = c := by
  rw [sanitizeCompactPose16d, Bool.or_eq_false_iff] at h
  ext1
  · exact sanitizePose8d_same hE h.1
  · exact sanitizePose8d_same hE h.2

omit [LinearOrder K] [IsStrictOrderedRing K] hE in
/-- A finite array holds two poses of the field. -/
theorem finite_eq_arrayOfArms (f : Fin 16 → K) :
    ∃ c : Compact (Pose K), (fun i => .fin (f i)) = arrayOfArms (c.map PoseOf.toRaw) := by
  refine ⟨(armsOfArray f).map fun p => ⟨p.trans, quatOfXyzw p.quat, p.gripper⟩, ?_⟩
  rw [← arrayOfArms_armsOfArray fun i => ExtNum.fin (f i)]
  have hquat : ∀ q : Fin 4 → K, (fun i => ExtNum.fin (q i)) = rawQuat (quatOfXyzw q) := by
    intro q
    ext i
    rw [rawQuat, xyzwOfQuat_quatOfXyzw]
  exact congrArg arrayOfArms (Compact.ext (PoseOf.ext rfl (hquat _) rfl)
    (PoseOf.ext rfl (hquat _) rfl))

omit [IsStrictOrderedRing K] hE in
/-- With a finite fallback the result is that over the field. -/
theorem exists_sanitizeCompactPose16d (v : Fin 16 → ExtNum K) (fallback : Option (Fin 16 → K)) :
    ∃ c : Option (Compact (Pose K)),
      sanitizeRawCompactPose16d E v (fallback.map fun f i => .fin (f i)) =
        (arrayOfArms ((sanitizeCompactPose16d E (armsOfArray v) c).1.map PoseOf.toRaw),
          (sanitizeCompactPose16d E (armsOfArray v) c).2) := by
  cases fallback with
  | none => exact ⟨none, sanitizeRawCompactPose16d_eq E v none⟩
  | some f =>
      obtain ⟨c, hc⟩ := finite_eq_arrayOfArms f
      refine ⟨some c, ?_⟩
      rw [Option.map_some, hc]
      exact sanitizeRawCompactPose16d_eq E v (some c)

/-- **Sanitizing repairs, and says so.** The result is finite with both quaternions
close to unit norm; the flag is false exactly when the input already was, and then
it comes back as it is; what was usable is kept; and a second pass is the identity,
whatever its fallback. -/
theorem sanitizeRawCompactPose16d_repairs (v : Fin 16 → ExtNum K)
    (fallback : Option (Fin 16 → K)) :
    let r := sanitizeRawCompactPose16d E v (fallback.map fun f i => .fin (f i))
    (∀ i, (r.1 i).isFinite = true) ∧
      Repaired E (armsOfArray v).left (armsOfArray r.1).left ∧
      Repaired E (armsOfArray v).right (armsOfArray r.1).right ∧
      (r.2 = false ↔ (∀ i, (v i).isFinite = true) ∧
        NearUnit (quatOfRaw (armsOfArray v).left.quat) ∧
        NearUnit (quatOfRaw (armsOfArray v).right.quat)) ∧
      (r.2 = false → r.1 = v) ∧
      ∀ again : Option (Fin 16 → K),
        sanitizeRawCompactPose16d E r.1 (again.map fun f i => .fin (f i)) = (r.1, false) := by
  intro r
  obtain ⟨c, hr⟩ := exists_sanitizeCompactPose16d (E := E) v fallback
  have hvalue : r.1 =
      arrayOfArms ((sanitizeCompactPose16d E (armsOfArray v) c).1.map PoseOf.toRaw) :=
    congrArg Prod.fst hr
  have hflag : r.2 = (sanitizeCompactPose16d E (armsOfArray v) c).2 := congrArg Prod.snd hr
  have harms : armsOfArray r.1 =
      (sanitizeCompactPose16d E (armsOfArray v) c).1.map PoseOf.toRaw := by
    rw [hvalue, armsOfArray_arrayOfArms]
  have hleft : Repaired E (armsOfArray v).left (armsOfArray r.1).left := by
    rw [harms]
    exact repaired_sanitizePose8d hE _ _
  have hright : Repaired E (armsOfArray v).right (armsOfArray r.1).right := by
    rw [harms]
    exact repaired_sanitizePose8d hE _ _
  refine ⟨?_, hleft, hright, ?_, ?_, ?_⟩
  · rw [← arrayOfArms_armsOfArray r.1]
    exact forall_arrayOfArms.mpr ⟨hleft.sane.1, hright.sane.1⟩
  · have hall : (∀ i, (v i).isFinite = true) ↔
        (armsOfArray v).left.Forall (·.isFinite = true) ∧
          (armsOfArray v).right.Forall (·.isFinite = true) := by
      rw [← forall_arrayOfArms, arrayOfArms_armsOfArray]
    rw [hflag, sanitizeCompactPose16d_flag hE, hall]
    constructor
    · rintro ⟨⟨hleft, hnearLeft⟩, hright, hnearRight⟩
      exact ⟨⟨hleft, hright⟩, hnearLeft, hnearRight⟩
    · rintro ⟨⟨hleft, hright⟩, hnearLeft, hnearRight⟩
      exact ⟨⟨hleft, hnearLeft⟩, hright, hnearRight⟩
  · intro hsame
    rw [hflag] at hsame
    rw [hvalue, sanitizeCompactPose16d_same hE hsame, arrayOfArms_armsOfArray]
  · intro again
    obtain ⟨d, hd⟩ := exists_sanitizeCompactPose16d (E := E) r.1 again
    have hsane := (sanitizeCompactPose16d_flag hE (armsOfArray r.1) d).mpr
      ⟨hleft.sane, hright.sane⟩
    rw [hd, hsane, sanitizeCompactPose16d_same hE hsane, arrayOfArms_armsOfArray]

end Repair

/-- A left arm with a broken quaternion, and a right arm with a long one and neither a
position nor a gripper. -/
def brokenArms : Compact (RawPose ℝ) where
  left := ⟨![.fin 1, .fin (-1), .fin 0], ![.posInf, .fin 0, .fin 0, .fin 1], .fin 1⟩
  right := ⟨![.fin (-1), .nan, .fin 1], fun _ => .fin 1, .negInf⟩

/-- What can be kept is kept, with the last pose for the rest. -/
theorem sanitizeRawCompactPose16d_repairs_brokenArms :
    ∃ r : (Fin 16 → ExtNum ℝ) × Bool,
      sanitizeRawCompactPose16d realElementary (arrayOfArms brokenArms) (some fun i => .fin i) = r ∧
      r.2 = true ∧ (∀ i, (r.1 i).isFinite = true) ∧
      (armsOfArray r.1).left.trans = brokenArms.left.trans ∧
      (armsOfArray r.1).left.gripper = brokenArms.left.gripper ∧
      ∃ c : ℝ, 0 < c ∧
        quatOfRaw (armsOfArray r.1).right.quat = c • quatOfRaw brokenArms.right.quat := by
  obtain ⟨hfinite, hleft, hright, hflag, -⟩ := sanitizeRawCompactPose16d_repairs
    isSqrt_realElementary (arrayOfArms brokenArms) (some fun i => (i : ℝ))
  rw [armsOfArray_arrayOfArms] at hleft hright
  refine ⟨_, rfl, ?_, hfinite, hleft.trans ?_, hleft.gripper rfl, hright.direction ?_ ?_⟩
  · by_contra hsame
    have hinf := (hflag.mp (Bool.eq_false_iff.mpr hsame)).1 3
    exact Bool.false_ne_true hinf
  · intro i
    fin_cases i <;> rfl
  · exact fun _ => rfl
  · have hnorm : normSq (quatOfRaw brokenArms.right.quat) = 4 := by
      rw [normSq_def']
      show (1 : ℝ) ^ 2 + 1 ^ 2 + 1 ^ 2 + 1 ^ 2 = 4
      norm_num
    show 1 / ((10 ^ 8 : ℕ) : ℝ) ≤ Real.sqrt (normSq (quatOfRaw brokenArms.right.quat))
    rw [hnorm]
    apply Real.le_sqrt_of_sq_le
    norm_num

end P2PRdt.Robot

import P2PRdt.Robot.Msgpack
import P2PRdt.Robot.NumPy

/-!
# The wire format of the RoboTwin server

`_pack_array` turns an array or a NumPy scalar into a dictionary that a key of
type `bytes` marks, `_unpack_array` turns such a dictionary back. A payload has
only keys of type `str`, so none of its dictionaries is taken for one of these.
What msgpack packs itself never reaches `_pack_array`, and a scalar that comes
back through its `item()` keeps its dtype only if the constructor finds it again.
-/

namespace P2PRdt.Robot

open Lib

variable {F : FloatFormats} {Bytes : Type}

/-! ## The hooks -/

def unsupportedDType (np : NumPy F) (d : NpDType) : WireError :=
  .valueError ("Unsupported dtype: " ++ np.dtypeName d)

/-- `_pack_array`. -/
def packArray (np : NumPy F) : PyObj F → Except WireError (PyObj F)
  | .ndarray a =>
      if a.dtype.kind.isUnsupported then .error (unsupportedDType np a.dtype)
      else
        .ok (.dict [(.bytes "__ndarray__", .bool true),
          (.bytes "data", .bytes (np.tobytes a)),
          (.bytes "dtype", .str (np.dtypeStr a.dtype)),
          (.bytes "shape", .tuple (a.shape.map fun n : ℕ => .int n))])
  | .generic s =>
      if s.dtype.kind.isUnsupported then .error (unsupportedDType np s.dtype)
      else
        .ok (.dict [(.bytes "__npgeneric__", .bool true),
          (.bytes "data", np.item s),
          (.bytes "dtype", .str (np.dtypeStr s.dtype))])
  | obj => .ok obj

/-- `obj[key]`. -/
def getItem (obj : List (PyDictKey × PyObj F)) (key : String) : Except WireError (PyObj F) :=
  match obj.lookup (.bytes key) with
  | some o => .ok o
  | none => .error (.keyError key)

/-- `_unpack_array`. -/
def unpackArray (np : NumPy F) (obj : List (PyDictKey × PyObj F)) : Except WireError (PyObj F) :=
  if (obj.lookup (.bytes "__ndarray__")).isSome then do
    let buffer ← getItem obj "data"
    let dtype ← np.dtype (← getItem obj "dtype")
    let shape ← getItem obj "shape"
    return .ndarray (← np.ndarray buffer dtype shape)
  else if (obj.lookup (.bytes "__npgeneric__")).isSome then do
    let dtype ← np.dtype (← getItem obj "dtype")
    np.scalar dtype (← getItem obj "data")
  else .ok (.dict obj)

/-- `packb` and `unpackb`. -/
def packb (np : NumPy F) (mp : Msgpack F Bytes) (o : PyObj F) : Except WireError Bytes :=
  mp.packb (packArray np) o

def unpackb (np : NumPy F) (mp : Msgpack F Bytes) (b : Bytes) : Except WireError (PyObj F) :=
  mp.unpackb (unpackArray np) b

/-! ## What is refused and what is lost -/

/-- An array or a scalar of a kind that the wire format refuses. -/
def Unsupported : PyObj F → Prop
  | .ndarray a => a.dtype.kind.isUnsupported = true
  | .generic s => s.dtype.kind.isUnsupported = true
  | _ => False

/-- An array or a scalar of another kind that does not come back: msgpack packs
it itself, its `item()` is no native value, or the constructor does not find its
unit again. -/
def Lossy : PyObj F → Prop
  | .ndarray a => a.dtype.kind = .varString
  | .generic (.float64 _) | .generic (.longdouble _) | .generic (.bytes _) | .generic (.str _) =>
      True
  | .generic (.datetime64 unit ticks) => unit ≠ none ∨ ticks ≠ none
  | .generic (.timedelta64 unit _) => unit ≠ none
  | _ => False

/-! ## Dictionaries -/

theorem lookup_of_strKeys {m : List (PyDictKey × PyObj F)}
    (h : ∀ k ∈ m.map Prod.fst, ∃ s, k = .str s) (key : String) : m.lookup (.bytes key) = none := by
  induction m with
  | nil => rfl
  | cons e m ih =>
      rcases e with ⟨k, o⟩
      obtain ⟨s, rfl⟩ := h k List.mem_cons_self
      rw [List.lookup_cons]
      exact ih fun k hk => h k (List.mem_cons_of_mem _ hk)

/-- A dictionary without keys of type `bytes` is not taken for a tagged one. -/
theorem unpackArray_of_strKeys (np : NumPy F) {m : List (PyDictKey × PyObj F)}
    (h : ∀ k ∈ m.map Prod.fst, ∃ s, k = .str s) : unpackArray np m = .ok (.dict m) := by
  have hnone : ∀ key, (m.lookup (.bytes key)).isSome = false := by
    intro key
    rw [lookup_of_strKeys h key]
    rfl
  rw [unpackArray, hnone, hnone]
  rfl

section Leaves

variable {np : NumPy F} (hnp : np.Lawful)

/-! ## Arrays -/

theorem length_cOrderBytes (a : NdArray) :
    a.cOrderBytes.length = a.shape.prod * a.dtype.itemsize := by
  rw [NdArray.cOrderBytes, length_flatMap_blocks (V := a.dtype.itemsize), length_indices]
  intro idx _
  exact a.length_element idx

/-- The bytes of an element stand at its place. -/
theorem getElem?_cOrderBytes (a : NdArray) {idx : List ℕ} (hidx : InBounds a.shape idx) {k : ℕ}
    (hk : k < a.dtype.itemsize) :
    a.cOrderBytes[ravel a.shape idx * a.dtype.itemsize + k]? = (a.element idx)[k]? := by
  rw [NdArray.cOrderBytes, getElem?_flatMap_blocks (fun idx _ => a.length_element idx) hk,
    getElem?_indices hidx, Option.bind_some]

include hnp in
/-- An array over the C-order bytes of an array has its elements. -/
theorem ndarray_tobytes (a : NdArray) (hkind : a.dtype.kind.isUnsupported = false)
    (hvar : a.dtype.kind ≠ .varString) :
    ∃ a', np.ndarray (.bytes (np.tobytes a)) a.dtype (shapeList a.shape) = .ok a' ∧ a.Same a' := by
  obtain ⟨a', ha', hdtype, hshape, helement⟩ :=
    hnp.ndarray_buffer a.cOrderBytes a.dtype a.shape hkind hvar (length_cOrderBytes a)
  refine ⟨a', by rw [hnp.tobytes_eq, ha'], hdtype.symm, hshape.symm, ?_⟩
  intro idx hidx
  apply List.ext_getElem?
  intro k
  by_cases hk : k < a.dtype.itemsize
  · rw [helement idx hidx k hk, getElem?_cOrderBytes a hidx hk]
  · have hlength : (a'.element idx).length = a.dtype.itemsize := by
      rw [a'.length_element, hdtype]
    rw [List.getElem?_eq_none (by simpa using hk),
      List.getElem?_eq_none (hlength.symm ▸ Nat.not_lt.mp hk)]

theorem pack_shape (n : ℕ) (shape : List ℕ) :
    pack (packArray np) (n + 2) (.tuple (shape.map fun m : ℕ => .int m)) =
      .ok (.array (shape.map fun m : ℕ => .int m)) := by
  have hall : (shape.map fun m : ℕ => (.int m : PyObj F)).mapM (pack (packArray np) (n + 1)) =
      .ok (shape.map fun m : ℕ => .int m) := by
    rw [mapM_eq_ok_iff, List.forall₂_map_left_iff, List.forall₂_map_right_iff]
    exact List.forall₂_same.mpr fun m _ => pack_of_native rfl
  exact (pack_of_native rfl).trans (congrArg (Except.map Packed.array) hall)

theorem unpack_shape (hook : List (PyDictKey × PyObj F) → Except WireError (PyObj F))
    (shape : List ℕ) :
    unpack hook (.array (shape.map fun m : ℕ => .int m)) = .ok (shapeList shape) := by
  have hall : (shape.map fun m : ℕ => (.int m : Packed F)).mapM (unpack hook) =
      .ok (shape.map fun m : ℕ => .int m) := by
    rw [mapM_eq_ok_iff, List.forall₂_map_left_iff, List.forall₂_map_right_iff]
    exact List.forall₂_same.mpr fun m _ => rfl
  rw [unpack, unpackAll_eq_mapM, hall]
  rfl

/-- What an array is packed to. -/
def packedArray (np : NumPy F) (a : NdArray) : Packed F :=
  .map [(.bytes "__ndarray__", .bool true), (.bytes "data", .bin (np.tobytes a)),
    (.bytes "dtype", .str (np.dtypeStr a.dtype)),
    (.bytes "shape", .array (a.shape.map fun m : ℕ => .int m))]

theorem pack_ndarray (n : ℕ) {a : NdArray} (ha : a.dtype.kind.isUnsupported = false) :
    pack (packArray np) (n + 3) (.ndarray a) = .ok (packedArray np a) := by
  have hdefault : packArray np (.ndarray a) = .ok (.dict [(.bytes "__ndarray__", .bool true),
      (.bytes "data", .bytes (np.tobytes a)), (.bytes "dtype", .str (np.dtypeStr a.dtype)),
      (.bytes "shape", .tuple (a.shape.map fun n : ℕ => .int n))]) := by
    rw [packArray, if_neg (by rw [ha]; decide)]
  refine pack_of_default rfl hdefault (congrArg some ?_)
  simp only [List.mapM_cons, List.mapM_nil, pack_shape]
  rfl

theorem unpack_packedArray {a : NdArray} :
    unpack (unpackArray np) (packedArray np a) = (do
      let dtype ← np.dtype (.str (np.dtypeStr a.dtype))
      return .ndarray (← np.ndarray (.bytes (np.tobytes a)) dtype (shapeList a.shape))) := by
  have hentries : unpackEntries (unpackArray np) [(.bytes "__ndarray__", .bool true),
      (.bytes "data", .bin (np.tobytes a)), (.bytes "dtype", .str (np.dtypeStr a.dtype)),
      (.bytes "shape", .array (a.shape.map fun m : ℕ => .int m))] =
      .ok [(.bytes "__ndarray__", .bool true), (.bytes "data", .bytes (np.tobytes a)),
        (.bytes "dtype", .str (np.dtypeStr a.dtype)), (.bytes "shape", shapeList a.shape)] := by
    simp only [unpackEntries, unpack_shape]
    rfl
  rw [packedArray, unpack, hentries]
  rfl

include hnp in
theorem roundTrips_ndarray (n : ℕ) (a : NdArray) :
    RoundTrips (packArray np) (unpackArray np) (n + 3) (.ndarray a) ↔
      ¬Unsupported (F := F) (.ndarray a) ∧ ¬Lossy (F := F) (.ndarray a) := by
  cases hkind : a.dtype.kind.isUnsupported with
  | true =>
      have herror : packArray np (.ndarray a) = .error (unsupportedDType np a.dtype) := by
        rw [packArray, if_pos hkind]
      constructor
      · rintro ⟨p, o', hp, -⟩
        rw [pack_of_default_error rfl herror] at hp
        cases hp
      · rintro ⟨hnot, -⟩
        exact absurd hkind hnot
  | false =>
      have hsupported : ¬Unsupported (F := F) (.ndarray a) := by
        rw [Unsupported, hkind]
        exact Bool.false_ne_true
      rw [RoundTrips, pack_ndarray n hkind]
      constructor
      · rintro ⟨p, o', hp, ho', -⟩
        refine ⟨hsupported, ?_⟩
        intro hlossy
        obtain rfl := Except.ok.inj hp
        obtain ⟨e, he⟩ := hnp.dtype_varString a.dtype hlossy
        rw [unpack_packedArray, he] at ho'
        cases ho'
      · rintro ⟨-, hnot⟩
        obtain ⟨a', ha', hsame⟩ := ndarray_tobytes hnp a hkind hnot
        refine ⟨_, .ndarray a', rfl, ?_, .ndarray hsame⟩
        rw [unpack_packedArray, hnp.dtype_str a.dtype hkind hnot]
        simp only [bind, Except.bind, ha', pure, Except.pure]

/-! ## NumPy scalars -/

/-- Strings of variable width have no scalar type of their own. -/
theorem scalar_kind_ne_varString (s : NpScalar F) : s.dtype.kind ≠ .varString := by
  cases s with
  | int t v =>
      rcases t with ⟨signed, width⟩
      cases signed <;> nofun
  | _ => nofun

theorem int_isUnsupported (t : IntType) (v : {z : ℤ // t.InRange z}) :
    (NpScalar.int (F := F) t v).dtype.kind.isUnsupported = false := by
  rcases t with ⟨signed, width⟩
  cases signed <;> rfl

/-- A scalar whose `item()` is packed as one native value. -/
theorem pack_generic (n : ℕ) {s : NpScalar F} {packed : Packed F}
    (hnative : packInner (pack (packArray np) (n + 1)) (.generic s) = none)
    (hs : s.dtype.kind.isUnsupported = false)
    (hitem : pack (packArray np) (n + 1) (np.item s) = .ok packed) :
    pack (packArray np) (n + 2) (.generic s) =
      .ok (.map [(.bytes "__npgeneric__", .bool true), (.bytes "data", packed),
        (.bytes "dtype", .str (np.dtypeStr s.dtype))]) := by
  have hdefault : packArray np (.generic s) = .ok (.dict [(.bytes "__npgeneric__", .bool true),
      (.bytes "data", np.item s), (.bytes "dtype", .str (np.dtypeStr s.dtype))]) := by
    rw [packArray, if_neg (by rw [hs]; decide)]
  refine pack_of_default hnative hdefault (congrArg some ?_)
  simp only [List.mapM_cons, List.mapM_nil, hitem]
  rfl

/-- A scalar whose `item()` cannot be packed cannot be packed. -/
theorem pack_generic_error (n : ℕ) {s : NpScalar F}
    (hnative : packInner (pack (packArray np) (n + 1)) (.generic s) = none)
    (hs : s.dtype.kind.isUnsupported = false)
    (hitem : ∃ e, pack (packArray np) (n + 1) (np.item s) = .error e) :
    ∃ e, pack (packArray np) (n + 2) (.generic s) = .error e := by
  rcases hitem with ⟨e, he⟩
  have hdefault : packArray np (.generic s) = .ok (.dict [(.bytes "__npgeneric__", .bool true),
      (.bytes "data", np.item s), (.bytes "dtype", .str (np.dtypeStr s.dtype))]) := by
    rw [packArray, if_neg (by rw [hs]; decide)]
  refine ⟨e, pack_of_default hnative hdefault (congrArg some ?_)⟩
  simp only [List.mapM_cons, List.mapM_nil, he]
  rfl

theorem unpack_generic {s : NpScalar F} {packed : Packed F} {value : PyObj F}
    (hvalue : unpack (unpackArray np) packed = .ok value) :
    unpack (unpackArray np) (.map [(.bytes "__npgeneric__", .bool true),
      (.bytes "data", packed), (.bytes "dtype", .str (np.dtypeStr s.dtype))]) = (do
        let dtype ← np.dtype (.str (np.dtypeStr s.dtype))
        np.scalar dtype value) := by
  have hentries : unpackEntries (unpackArray np) [(.bytes "__npgeneric__", .bool true),
      (.bytes "data", packed), (.bytes "dtype", .str (np.dtypeStr s.dtype))] =
      .ok [(.bytes "__npgeneric__", .bool true), (.bytes "data", value),
        (.bytes "dtype", .str (np.dtypeStr s.dtype))] := by
    simp only [unpackEntries, hvalue]
    rfl
  rw [unpack, hentries]
  rfl

include hnp in
/-- It comes back when the constructor of its type rebuilds it from this value. -/
theorem roundTrips_generic_of_item (n : ℕ) {s : NpScalar F} (packed : Packed F) (value : PyObj F)
    (hnative : packInner (pack (packArray np) (n + 1)) (.generic s) = none)
    (hs : s.dtype.kind.isUnsupported = false)
    (hitem : pack (packArray np) (n + 1) (np.item s) = .ok packed)
    (hvalue : unpack (unpackArray np) packed = .ok value) :
    RoundTrips (packArray np) (unpackArray np) (n + 2) (.generic s) ↔
      np.scalar s.dtype value = .ok (.generic s) := by
  have hunpack : unpack (unpackArray np) (.map [(.bytes "__npgeneric__", .bool true),
      (.bytes "data", packed), (.bytes "dtype", .str (np.dtypeStr s.dtype))]) =
      np.scalar s.dtype value := by
    rw [unpack_generic hvalue, hnp.dtype_str s.dtype hs (scalar_kind_ne_varString s)]
    rfl
  rw [RoundTrips, pack_generic n hnative hs hitem]
  constructor
  · rintro ⟨p, o', hp, ho', hsame⟩
    obtain rfl := Except.ok.inj hp
    rw [hunpack] at ho'
    cases hsame with
    | generic => exact ho'
  · intro h
    exact ⟨_, _, rfl, hunpack.trans h, .generic s⟩

include hnp in
theorem item_longdouble_error (x : F.extended) (n : ℕ) :
    ∃ e, pack (packArray np) n (.generic (.longdouble x)) = .error e := by
  -- its default holds the scalar again, one level deeper
  induction n with
  | zero => exact ⟨_, rfl⟩
  | succ n ih =>
      cases n with
      | zero =>
          have hdefault : packArray np (.generic (.longdouble x)) =
              .ok (.dict [(.bytes "__npgeneric__", .bool true),
                (.bytes "data", np.item (.longdouble x)),
                (.bytes "dtype", .str (np.dtypeStr (NpScalar.longdouble x).dtype))]) := rfl
          exact ⟨_, pack_of_default rfl hdefault rfl⟩
      | succ n =>
          apply pack_generic_error n rfl rfl
          rw [hnp.item_longdouble]
          exact ih

theorem pack_other_error (id n : ℕ) : ∃ e, pack (packArray np) n (.other id) = .error e := by
  cases n with
  | zero => exact ⟨_, rfl⟩
  | succ n => exact ⟨.typeError "can not serialize", rfl⟩

theorem not_roundTrips_of_error {n : ℕ} {o : PyObj F}
    (h : ∃ e, pack (packArray np) n o = .error e) :
    ¬RoundTrips (packArray np) (unpackArray np) n o := by
  rintro ⟨p, o', hp, -⟩
  rcases h with ⟨e, he⟩
  rw [he] at hp
  cases hp

/-- A scalar that msgpack packs itself comes back as a Python value. -/
theorem not_roundTrips_of_native {n : ℕ} {s : NpScalar F} (packed : Packed F) (value : PyObj F)
    (hpack : pack (packArray np) n (.generic s) = .ok packed)
    (hvalue : unpack (unpackArray np) packed = .ok value)
    (hne : ¬SameObj (.generic s) value) :
    ¬RoundTrips (packArray np) (unpackArray np) n (.generic s) := by
  rintro ⟨p, o', hp, ho', hsame⟩
  obtain rfl := Except.ok.inj (hpack.symm.trans hp)
  obtain rfl := Except.ok.inj (hvalue.symm.trans ho')
  exact hne hsame

include hnp in
theorem not_roundTrips_datetime_unit (n : ℕ) (unit : TimeUnit) (ticks : ℤ) :
    ¬RoundTrips (packArray np) (unpackArray np) (n + 2)
      (.generic (.datetime64 (some unit) (some ticks))) := by
  rcases hnp.item_datetime_unit unit ticks with ⟨z, hz⟩ | ⟨id, hid⟩
  · obtain ⟨e, he⟩ := hnp.scalar_datetime_int (some unit) z
    rw [roundTrips_generic_of_item hnp n (.int z) (.int z) rfl rfl (by rw [hz]; rfl) rfl]
    intro h
    exact absurd (he.symm.trans h) (by simp)
  · apply not_roundTrips_of_error
    apply pack_generic_error n rfl rfl
    rw [hid]
    exact pack_other_error id (n + 1)

include hnp in
theorem not_roundTrips_timedelta_unit (n : ℕ) (unit : TimeUnit) (ticks : ℤ) :
    ¬RoundTrips (packArray np) (unpackArray np) (n + 2)
      (.generic (.timedelta64 (some unit) (some ticks))) := by
  rcases hnp.item_timedelta_unit unit ticks with ⟨z, hz⟩ | ⟨id, hid⟩
  · rw [roundTrips_generic_of_item hnp n (.int z) (.int z) rfl rfl (by rw [hz]; rfl) rfl]
    intro h
    have hscalar := (hnp.scalar_timedelta_int (some unit) z).symm.trans h
    simp at hscalar
  · apply not_roundTrips_of_error
    apply pack_generic_error n rfl rfl
    rw [hid]
    exact pack_other_error id (n + 1)

include hnp in
/-- A time whose `item()` is `None` comes back as the generic `NaT`. -/
theorem roundTrips_time_none (n : ℕ) {s nat : NpScalar F} (hs : s.dtype.kind.isUnsupported = false)
    (hnative : packInner (pack (packArray np) (n + 1)) (.generic s) = none)
    (hitem : np.item s = .none) (hscalar : np.scalar s.dtype .none = .ok (.generic nat)) :
    RoundTrips (packArray np) (unpackArray np) (n + 2) (.generic s) ↔ nat = s := by
  rw [roundTrips_generic_of_item hnp n .nil .none hnative hs (by rw [hitem]; rfl) rfl, hscalar]
  simp

include hnp in
/-- Of the dates only the generic `NaT` comes back. -/
theorem roundTrips_datetime (n : ℕ) (unit : Option TimeUnit) (ticks : Option ℤ) :
    RoundTrips (packArray np) (unpackArray np) (n + 2) (.generic (.datetime64 unit ticks)) ↔
      unit = none ∧ ticks = none := by
  cases unit with
  | none =>
      rw [roundTrips_time_none hnp n rfl rfl (hnp.item_datetime_generic ticks)
        (hnp.scalar_datetime_none none), NpScalar.datetime64.injEq,
        eq_comm (a := none) (b := ticks)]
  | some unit =>
      refine iff_of_false ?_ fun h => Option.some_ne_none unit h.1
      cases ticks with
      | none =>
          rw [roundTrips_time_none hnp n rfl rfl (hnp.item_datetime_nat (some unit))
            (hnp.scalar_datetime_none (some unit)), NpScalar.datetime64.injEq]
          exact fun h => Option.some_ne_none unit h.1.symm
      | some ticks => exact not_roundTrips_datetime_unit hnp n unit ticks

include hnp in
/-- Of the durations the generic ones come back. -/
theorem roundTrips_timedelta (n : ℕ) (unit : Option TimeUnit) (ticks : Option ℤ) :
    RoundTrips (packArray np) (unpackArray np) (n + 2) (.generic (.timedelta64 unit ticks)) ↔
      unit = none := by
  cases unit with
  | none =>
      refine iff_of_true ?_ rfl
      cases ticks with
      | none =>
          exact (roundTrips_time_none hnp n rfl rfl (hnp.item_timedelta_nat none)
            (hnp.scalar_timedelta_none none)).mpr rfl
      | some ticks =>
          rw [roundTrips_generic_of_item hnp n (.int ticks) (.int ticks) rfl rfl
            (by rw [hnp.item_timedelta_generic]; rfl) rfl]
          exact hnp.scalar_timedelta_int none ticks
  | some unit =>
      refine iff_of_false ?_ (Option.some_ne_none unit)
      cases ticks with
      | none =>
          rw [roundTrips_time_none hnp n rfl rfl (hnp.item_timedelta_nat (some unit))
            (hnp.scalar_timedelta_none (some unit)), NpScalar.timedelta64.injEq]
          exact fun h => Option.some_ne_none unit h.1.symm
      | some ticks => exact not_roundTrips_timedelta_unit hnp n unit ticks

include hnp in
theorem roundTrips_generic (n : ℕ) (s : NpScalar F) :
    RoundTrips (packArray np) (unpackArray np) (n + 2) (.generic s) ↔
      ¬Unsupported (.generic s) ∧ ¬Lossy (.generic s) := by
  cases s with
  | bool b =>
      rw [roundTrips_generic_of_item hnp n (.bool b) (.bool b) rfl rfl
        (by rw [hnp.item_bool]; rfl) rfl]
      exact iff_of_true (hnp.scalar_bool b) ⟨Bool.false_ne_true, not_false⟩
  | int t v =>
      have hsupported := int_isUnsupported (F := F) t v
      rw [roundTrips_generic_of_item hnp n (.int v) (.int v) rfl hsupported
        (by rw [hnp.item_int]; rfl) rfl]
      refine iff_of_true (hnp.scalar_int t v) ⟨?_, not_false⟩
      intro hunsupported
      exact Bool.false_ne_true (hsupported.symm.trans hunsupported)
  | float16 x =>
      rw [roundTrips_generic_of_item hnp n (.float (F.ofHalf x)) (.float (F.ofHalf x)) rfl rfl
        (by rw [hnp.item_float16]; rfl) rfl]
      refine iff_of_true ?_ ⟨Bool.false_ne_true, not_false⟩
      have hscalar := hnp.scalar_float16 (F.ofHalf x)
      rw [F.toHalf_ofHalf] at hscalar
      exact hscalar
  | float32 x =>
      rw [roundTrips_generic_of_item hnp n (.float (F.ofSingle x)) (.float (F.ofSingle x)) rfl rfl
        (by rw [hnp.item_float32]; rfl) rfl]
      refine iff_of_true ?_ ⟨Bool.false_ne_true, not_false⟩
      have hscalar := hnp.scalar_float32 (F.ofSingle x)
      rw [F.toSingle_ofSingle] at hscalar
      exact hscalar
  | float64 x =>
      refine iff_of_false ?_ fun h => h.2 trivial
      exact not_roundTrips_of_native (.float x) (.float x) rfl rfl (by rintro ⟨⟩)
  | longdouble x =>
      refine iff_of_false ?_ fun h => h.2 trivial
      exact not_roundTrips_of_error (item_longdouble_error hnp x (n + 2))
  | complex width data =>
      refine iff_of_false ?_ fun h => h.1 rfl
      exact not_roundTrips_of_error ⟨_, pack_of_default_error rfl rfl⟩
  | bytes b =>
      refine iff_of_false ?_ fun h => h.2 trivial
      exact not_roundTrips_of_native (.bin b) (.bytes b) rfl rfl (by rintro ⟨⟩)
  | str s =>
      refine iff_of_false ?_ fun h => h.2 trivial
      exact not_roundTrips_of_native (.str s) (.str s) rfl rfl (by rintro ⟨⟩)
  | void data =>
      refine iff_of_false ?_ fun h => h.1 rfl
      exact not_roundTrips_of_error ⟨_, pack_of_default_error rfl rfl⟩
  | datetime64 unit ticks =>
      rw [roundTrips_datetime hnp]
      constructor
      · rintro ⟨rfl, rfl⟩
        exact ⟨Bool.false_ne_true, fun h => h.elim (fun h => h rfl) fun h => h rfl⟩
      · rintro ⟨-, hnot⟩
        exact not_or.mp hnot |>.imp of_not_not of_not_not
  | timedelta64 unit ticks =>
      rw [roundTrips_timedelta hnp]
      constructor
      · rintro rfl
        exact ⟨Bool.false_ne_true, fun h => h rfl⟩
      · rintro ⟨-, hnot⟩
        exact of_not_not hnot

/-! ## Payloads -/

theorem packInner_of_unsupported (np : NumPy F) (f : PyObj F → Except WireError (Packed F))
    {o : PyObj F} (h : Unsupported o) : packInner f o = none ∧ ∃ e, packArray np o = .error e := by
  cases o with
  | ndarray a => exact ⟨rfl, _, if_pos h⟩
  | generic s =>
      cases s with
      | complex width data => exact ⟨rfl, _, rfl⟩
      | void data => exact ⟨rfl, _, rfl⟩
      | int t v => exact absurd ((int_isUnsupported t v).symm.trans h) Bool.false_ne_true
      | _ => exact absurd h Bool.false_ne_true
  | _ => exact h.elim

/-- What is refused is refused at any depth. -/
theorem pack_error_of_occurs (np : NumPy F) {s o : PyObj F} (hoccurs : Occurs s o)
    (hs : Unsupported s) (n : ℕ) : ∃ e, pack (packArray np) n o = .error e := by
  induction hoccurs generalizing n with
  | self =>
      cases n with
      | zero => exact ⟨_, rfl⟩
      | succ n =>
          obtain ⟨hnone, e, he⟩ := packInner_of_unsupported np (pack (packArray np) n) hs
          exact ⟨e, pack_of_default_error hnone he⟩
  | @list l o hmem _ ih =>
      cases n with
      | zero => exact ⟨_, rfl⟩
      | succ n =>
          obtain ⟨e, he⟩ := mapM_error_of_mem hmem (ih n)
          refine ⟨e, (pack_of_native rfl).trans ?_⟩
          rw [he]
          rfl
  | @dict m entry hmem _ ih =>
      cases n with
      | zero => exact ⟨_, rfl⟩
      | succ n =>
          have hentry : ∃ e, (pack (packArray np) n entry.2).map (fun p => (entry.1, p)) =
              .error e := by
            obtain ⟨e, he⟩ := ih n
            exact ⟨e, by rw [he]; rfl⟩
          obtain ⟨e, he⟩ := mapM_error_of_mem
            (f := fun e => (pack (packArray np) n e.2).map fun p => (e.1, p)) hmem hentry
          refine ⟨e, (pack_of_native rfl).trans ?_⟩
          rw [he]
          rfl

/-- Everything inside is supported and comes back. -/
def Intact (o : PyObj F) : Prop := ∀ s, Occurs s o → ¬Unsupported s ∧ ¬Lossy s

theorem intact_leaf {o : PyObj F} (h : ∀ s, Occurs s o → s = o) :
    Intact o ↔ ¬Unsupported o ∧ ¬Lossy o := by
  constructor
  · intro hintact
    exact hintact o .self
  · intro ho s hs
    rw [h s hs]
    exact ho

theorem intact_list {l : List (PyObj F)} : Intact (.list l) ↔ ∀ o ∈ l, Intact o := by
  constructor
  · intro h o ho s hs
    exact h s (.list ho hs)
  · intro h s hs
    cases hs with
    | self => exact ⟨not_false, not_false⟩
    | list hmem hs => exact h _ hmem s hs

theorem intact_dict {m : List (PyDictKey × PyObj F)} :
    Intact (.dict m) ↔ ∀ e ∈ m, Intact e.2 := by
  constructor
  · intro h e he s hs
    exact h s (.dict he hs)
  · intro h s hs
    cases hs with
    | self => exact ⟨not_false, not_false⟩
    | dict hmem hs => exact h _ hmem s hs

include hnp in
/-- A payload comes back when everything inside does. -/
theorem roundTrips_iff_intact {o : PyObj F} (ho : IsPayload o) {n : ℕ} (hn : o.depth ≤ n) :
    RoundTrips (packArray np) (unpackArray np) (n + 1) o ↔ Intact o := by
  induction ho generalizing n with
  | none =>
      rw [intact_leaf (by rintro s ⟨⟩; rfl)]
      exact iff_of_true ⟨_, _, rfl, rfl, .none⟩ ⟨not_false, not_false⟩
  | bool b =>
      rw [intact_leaf (by rintro s ⟨⟩; rfl)]
      exact iff_of_true ⟨_, _, rfl, rfl, .bool b⟩ ⟨not_false, not_false⟩
  | int z =>
      rw [intact_leaf (by rintro s ⟨⟩; rfl)]
      exact iff_of_true ⟨_, _, rfl, rfl, .int z⟩ ⟨not_false, not_false⟩
  | float x =>
      rw [intact_leaf (by rintro s ⟨⟩; rfl)]
      exact iff_of_true ⟨_, _, rfl, rfl, .float x⟩ ⟨not_false, not_false⟩
  | str s =>
      rw [intact_leaf (by rintro s ⟨⟩; rfl)]
      exact iff_of_true ⟨_, _, rfl, rfl, .str s⟩ ⟨not_false, not_false⟩
  | bytes b =>
      rw [intact_leaf (by rintro s ⟨⟩; rfl)]
      exact iff_of_true ⟨_, _, rfl, rfl, .bytes b⟩ ⟨not_false, not_false⟩
  | @list l _ ih =>
      obtain ⟨n, rfl⟩ := Nat.exists_eq_add_of_le' (Nat.one_le_of_lt hn)
      have hl : depthOfList l ≤ n := Nat.le_of_succ_le_succ hn
      rw [roundTrips_list, intact_list]
      refine forall₂_congr fun o hmem => ?_
      exact ih o hmem ((depth_le_depthOfList hmem).trans hl)
  | @dict m hkeys _ _ ih =>
      obtain ⟨n, rfl⟩ := Nat.exists_eq_add_of_le' (Nat.one_le_of_lt hn)
      have hm : depthOfEntries m ≤ n := Nat.le_of_succ_le_succ hn
      have hhook : ∀ m' : List (PyDictKey × PyObj F), m'.map Prod.fst = m.map Prod.fst →
          unpackArray np m' = .ok (.dict m') := by
        intro m' hm'
        apply unpackArray_of_strKeys np
        intro k hk
        rw [hm'] at hk
        obtain ⟨e, he, rfl⟩ := List.mem_map.mp hk
        exact hkeys e he
      rw [roundTrips_dict hhook, intact_dict]
      refine forall₂_congr fun e hmem => ?_
      exact ih e hmem ((depth_le_depthOfEntries hmem).trans hm)
  | ndarray a =>
      obtain ⟨n, rfl⟩ := Nat.exists_eq_add_of_le' hn
      rw [intact_leaf (by rintro s ⟨⟩; rfl)]
      exact roundTrips_ndarray hnp n a
  | generic s =>
      obtain ⟨n, rfl⟩ := Nat.exists_eq_add_of_le' hn
      rw [intact_leaf (by rintro s ⟨⟩; rfl)]
      exact roundTrips_generic hnp n s

end Leaves

/-- What the wire format is for: a payload with something unsupported inside is
refused, any other comes back with its structure and its values. -/
def WireProperty (np : NumPy F) (mp : Msgpack F Bytes) (payload : PyObj F) : Prop :=
  ((∃ s, Occurs s payload ∧ Unsupported s) → ∃ e, packb np mp payload = .error e) ∧
  ((∀ s, Occurs s payload → ¬Unsupported s) →
    ∃ b o, packb np mp payload = .ok b ∧ unpackb np mp b = .ok o ∧ SameObj payload o)

theorem packb_unpackb_iff (np : NumPy F) (mp : Msgpack F Bytes) (payload : PyObj F) :
    (∃ b o, packb np mp payload = .ok b ∧ unpackb np mp b = .ok o ∧ SameObj payload o) ↔
      RoundTrips (packArray np) (unpackArray np) (mp.nestLimit + 1) payload := by
  constructor
  · rintro ⟨b, o, hb, ho, hsame⟩
    obtain ⟨p, hp, rfl⟩ := map_eq_ok.mp hb
    rw [unpackb, Msgpack.unpackb, mp.lossless] at ho
    exact ⟨p, o, hp, ho, hsame⟩
  · rintro ⟨p, o, hp, ho, hsame⟩
    refine ⟨mp.encode p, o, map_eq_ok.mpr ⟨p, hp, rfl⟩, ?_, hsame⟩
    rw [unpackb, Msgpack.unpackb, mp.lossless]
    exact ho

/-- For every payload that msgpack can descend into, the wire format does what it
is for just when something in it is refused or nothing in it is lost. -/
theorem wireProperty_iff {np : NumPy F} (hnp : np.Lawful) (mp : Msgpack F Bytes)
    {payload : PyObj F} (hpayload : IsPayload payload) (hdepth : payload.depth ≤ mp.nestLimit) :
    WireProperty np mp payload ↔
      (∃ s, Occurs s payload ∧ Unsupported s) ∨ ∀ s, Occurs s payload → ¬Lossy s := by
  have hround := (packb_unpackb_iff np mp payload).trans
    (roundTrips_iff_intact hnp hpayload hdepth)
  by_cases hunsupported : ∃ s, Occurs s payload ∧ Unsupported s
  · refine iff_of_true ⟨fun _ => ?_, fun hnone => ?_⟩ (Or.inl hunsupported)
    · rcases hunsupported with ⟨s, hoccurs, hs⟩
      obtain ⟨e, he⟩ := pack_error_of_occurs np hoccurs hs (mp.nestLimit + 1)
      exact ⟨e, by rw [packb, Msgpack.packb, he]; rfl⟩
    · rcases hunsupported with ⟨s, hoccurs, hs⟩
      exact absurd hs (hnone s hoccurs)
  · have hsupported : ∀ s, Occurs s payload → ¬Unsupported s := by
      intro s hoccurs hs
      exact hunsupported ⟨s, hoccurs, hs⟩
    constructor
    · rintro ⟨-, hback⟩
      exact Or.inr fun s hoccurs => (hround.mp (hback hsupported) s hoccurs).2
    · rintro (hex | hlossless)
      · exact absurd hex hunsupported
      · refine ⟨fun hex => absurd hex hunsupported, fun _ => hround.mpr ?_⟩
        exact fun s hoccurs => ⟨hsupported s hoccurs, hlossless s hoccurs⟩

/-! ## Two payloads -/

/-- Floats with integer values. -/
def integralFloats : FloatFormats where
  half := ℤ
  single := ℤ
  double := ℤ
  extended := ℤ
  ofHalf := id
  toHalf := id
  ofSingle := id
  toSingle := id
  toHalf_ofHalf := fun _ => rfl
  toSingle_ofSingle := fun _ => rfl

/-- A msgpack that sends what it packed. -/
def directMsgpack (F : FloatFormats) : Msgpack F (Packed F) where
  nestLimit := 511
  encode := id
  decode := .ok
  lossless := fun _ => rfl

/-- A big-endian `int16` matrix, transposed. -/
def transposedView : NdArray where
  dtype := ⟨.int, 2, .big, none, rfl⟩
  shape := [2, 3]
  strides := [2, 4]
  data := 0
  memory := fun address => UInt8.ofNat address.toNat

/-- A view, a key that looks like a tag and a `float32` scalar in a list. -/
theorem wireProperty_transposed :
    WireProperty (referenceNumPy integralFloats) (directMsgpack integralFloats)
      (.dict [(.str "state", .ndarray transposedView), (.str "__ndarray__", .bool true),
        (.str "noise", .list [.generic (.float32 (1 : ℤ)), .none])]) := by
  refine (wireProperty_iff (referenceNumPy_lawful integralFloats) (directMsgpack integralFloats)
    (.dict ?_ (by decide) ?_) (by decide)).mpr (Or.inr ?_)
  · intro e he
    simp only [List.mem_cons, List.not_mem_nil, or_false] at he
    rcases he with rfl | rfl | rfl <;> exact ⟨_, rfl⟩
  · intro e he
    simp only [List.mem_cons, List.not_mem_nil, or_false] at he
    rcases he with rfl | rfl | rfl
    · exact .ndarray _
    · exact .bool true
    · refine .list fun o ho => ?_
      simp only [List.mem_cons, List.not_mem_nil, or_false] at ho
      rcases ho with rfl | rfl
      · exact .generic _
      · exact .none
  · intro s hs
    cases hs with
    | self => exact not_false
    | dict hmem hs =>
        simp only [List.mem_cons, List.not_mem_nil, or_false] at hmem
        rcases hmem with rfl | rfl | rfl
        · cases hs
          exact (by decide : transposedView.dtype.kind ≠ .varString)
        · cases hs
          exact not_false
        · cases hs with
          | self => exact not_false
          | list hmem hs =>
              simp only [List.mem_cons, List.not_mem_nil, or_false] at hmem
              rcases hmem with rfl | rfl
              · cases hs
                exact not_false
              · cases hs
                exact not_false

/-- `np.float64(1.0)` is a `float` for msgpack and comes back as one. -/
theorem wireProperty_fails_on_float64 :
    ¬WireProperty (referenceNumPy integralFloats) (directMsgpack integralFloats)
      (.dict [(.str "scale", .generic (.float64 (1 : ℤ)))]) := by
  rintro ⟨-, hback⟩
  obtain ⟨b, o, hb, ho, hsame⟩ := hback (by
    intro s hs
    cases hs with
    | self => exact not_false
    | dict hmem hs =>
        obtain rfl := List.mem_singleton.mp hmem
        cases hs
        exact Bool.false_ne_true)
  obtain rfl := Except.ok.inj hb
  obtain rfl := Except.ok.inj ho
  rw [sameObj_dict_iff, List.forall₂_cons] at hsame
  nomatch hsame.1.2

end P2PRdt.Robot

import P2PRdt.Robot.TypeStrings

/-!
# NumPy as the wire format sees it

The functions that the wire format calls and what NumPy promises about them. The
promises can be kept: `referenceNumPy` has contiguous arrays, the type strings and
the scalar types as far as the wire format asks for them.
-/

namespace P2PRdt.Robot

open Lib

variable {F : FloatFormats}

/-- What the wire format takes from NumPy: `a.tobytes()`, `d.str`, `str(d)`, `s.item()`,
`np.dtype(o)`, `np.ndarray(buffer=.., dtype=.., shape=..)` and `d.type(o)`. -/
structure NumPy (F : FloatFormats) where
  tobytes : NdArray → List UInt8
  dtypeStr : NpDType → String
  dtypeName : NpDType → String
  item : NpScalar F → PyObj F
  dtype : PyObj F → Except WireError NpDType
  ndarray : PyObj F → NpDType → PyObj F → Except WireError NdArray
  scalar : NpDType → PyObj F → Except WireError (PyObj F)

/-- The shape of an array as msgpack gives it back. -/
def shapeList (shape : List ℕ) : PyObj F := .list (shape.map fun n : ℕ => .int n)

/-- What NumPy promises. A type string names its dtype unless the strings are of
variable width, and an array of such a dtype on a buffer has its elements in C order.
`item()` is the Python value of a scalar, an integer or a `datetime` object for a
time with a unit, and the scalar itself for a `longdouble`. The constructor of a time
knows no unit. -/
structure NumPy.Lawful (np : NumPy F) : Prop where
  tobytes_eq : ∀ a, np.tobytes a = a.cOrderBytes
  dtype_str : ∀ d : NpDType, d.kind.isUnsupported = false → d.kind ≠ .varString →
    np.dtype (.str (np.dtypeStr d)) = .ok d
  dtype_varString : ∀ d : NpDType, d.kind = .varString →
    ∃ e, np.dtype (.str (np.dtypeStr d)) = .error e
  ndarray_buffer : ∀ (buffer : List UInt8) (d : NpDType) (shape : List ℕ),
    d.kind.isUnsupported = false → d.kind ≠ .varString →
    buffer.length = shape.prod * d.itemsize →
    ∃ a, np.ndarray (.bytes buffer) d (shapeList shape) = .ok a ∧ a.dtype = d ∧
      a.shape = shape ∧ ∀ idx, InBounds shape idx → ∀ k < d.itemsize,
        (a.element idx)[k]? = buffer[ravel shape idx * d.itemsize + k]?
  item_bool : ∀ b, np.item (.bool b) = .bool b
  item_int : ∀ t v, np.item (.int t v) = .int v
  item_float16 : ∀ x, np.item (.float16 x) = .float (F.ofHalf x)
  item_float32 : ∀ x, np.item (.float32 x) = .float (F.ofSingle x)
  item_longdouble : ∀ x, np.item (.longdouble x) = .generic (.longdouble x)
  item_datetime_nat : ∀ unit, np.item (.datetime64 unit none) = .none
  item_datetime_generic : ∀ ticks, np.item (.datetime64 none ticks) = .none
  item_datetime_unit : ∀ unit ticks,
    (∃ z, np.item (.datetime64 (some unit) (some ticks)) = .int z) ∨
      ∃ id, np.item (.datetime64 (some unit) (some ticks)) = .other id
  item_timedelta_nat : ∀ unit, np.item (.timedelta64 unit none) = .none
  item_timedelta_generic : ∀ ticks, np.item (.timedelta64 none (some ticks)) = .int ticks
  item_timedelta_unit : ∀ unit ticks,
    (∃ z, np.item (.timedelta64 (some unit) (some ticks)) = .int z) ∨
      ∃ id, np.item (.timedelta64 (some unit) (some ticks)) = .other id
  scalar_bool : ∀ b, np.scalar NpScalar.boolDType (.bool b) = .ok (.generic (.bool b))
  scalar_int : ∀ t (v : {z : ℤ // t.InRange z}),
    np.scalar (NpScalar.intDType t) (.int v) = .ok (.generic (.int t v))
  scalar_float16 : ∀ x,
    np.scalar NpScalar.float16DType (.float x) = .ok (.generic (.float16 (F.toHalf x)))
  scalar_float32 : ∀ x,
    np.scalar NpScalar.float32DType (.float x) = .ok (.generic (.float32 (F.toSingle x)))
  scalar_datetime_none : ∀ unit,
    np.scalar (NpScalar.datetimeDType unit) .none = .ok (.generic (.datetime64 none none))
  scalar_datetime_int : ∀ unit z,
    ∃ e, np.scalar (NpScalar.datetimeDType unit) (.int z) = .error e
  scalar_timedelta_none : ∀ unit,
    np.scalar (NpScalar.timedeltaDType unit) .none = .ok (.generic (.timedelta64 none none))
  scalar_timedelta_int : ∀ unit z,
    np.scalar (NpScalar.timedeltaDType unit) (.int z) = .ok (.generic (.timedelta64 none (some z)))

/-! ## Arrays on a buffer -/

def cStrides (itemsize : ℕ) : List ℕ → List ℤ
  | [] => []
  | _ :: shape => ((shape.prod * itemsize : ℕ) : ℤ) :: cStrides itemsize shape

theorem byteOffset_cStrides (itemsize : ℕ) {shape idx : List ℕ} (h : InBounds shape idx) :
    byteOffset idx (cStrides itemsize shape) = ((ravel shape idx * itemsize : ℕ) : ℤ) := by
  induction shape generalizing idx with
  | nil =>
      obtain rfl := inBounds_nil.mp h
      simp [byteOffset]
  | cons d shape ih =>
      obtain ⟨i, rest, -, hrest, rfl⟩ := inBounds_cons.mp h
      rw [cStrides, byteOffset, ih hrest, ravel_cons]
      push_cast
      ring

/-- The array that has its elements in C order in a buffer. -/
def contiguousArray (buffer : List UInt8) (d : NpDType) (shape : List ℕ) : NdArray where
  dtype := d
  shape := shape
  strides := cStrides d.itemsize shape
  data := 0
  memory := fun address => buffer.getD address.toNat 0

theorem getElem?_contiguousArray {buffer : List UInt8} {d : NpDType} {shape idx : List ℕ}
    (hbuffer : buffer.length = shape.prod * d.itemsize) (hidx : InBounds shape idx) {k : ℕ}
    (hk : k < d.itemsize) :
    ((contiguousArray buffer d shape).element idx)[k]? =
      buffer[ravel shape idx * d.itemsize + k]? := by
  have hplace : ravel shape idx * d.itemsize + k < buffer.length := by
    rw [hbuffer]
    calc ravel shape idx * d.itemsize + k
        < ravel shape idx * d.itemsize + d.itemsize := Nat.add_lt_add_left hk _
      _ = (ravel shape idx + 1) * d.itemsize := (Nat.succ_mul _ _).symm
      _ ≤ shape.prod * d.itemsize := Nat.mul_le_mul_right _ (ravel_lt hidx)
  have haddress : (0 : ℤ) + byteOffset idx (cStrides d.itemsize shape) + (k : ℤ) =
      ((ravel shape idx * d.itemsize + k : ℕ) : ℤ) := by
    rw [byteOffset_cStrides d.itemsize hidx, Int.zero_add, ← Int.natCast_add]
  have hrange : k < (contiguousArray buffer d shape).dtype.itemsize := hk
  rw [NdArray.element, List.getElem?_map, List.getElem?_range hrange, Option.map_some]
  show some (buffer.getD (0 + byteOffset idx (cStrides d.itemsize shape) + (k : ℤ)).toNat 0) = _
  rw [haddress, Int.toNat_natCast, List.getD_eq_getElem _ _ hplace,
    List.getElem?_eq_getElem hplace]

/-! ## A NumPy that keeps the promises -/

def readDim : PyObj F → Option ℕ
  | .int z => if 0 ≤ z then some z.toNat else none
  | _ => none

def readShape : PyObj F → Option (List ℕ)
  | .list l | .tuple l => l.mapM readDim
  | _ => none

theorem readShape_shapeList (shape : List ℕ) :
    readShape (shapeList (F := F) shape) = some shape := by
  apply mapM_eq_of_map_eq
  rw [List.map_map]
  apply List.map_congr_left
  intro n _
  show (if 0 ≤ (n : ℤ) then some (n : ℤ).toNat else none) = some n
  rw [if_pos (Int.natCast_nonneg n), Int.toNat_natCast]

def referenceNdarray (buffer : PyObj F) (d : NpDType) (shape : PyObj F) :
    Except WireError NdArray :=
  match buffer, readShape shape with
  | .bytes b, some shape =>
      if b.length < shape.prod * d.itemsize then
        .error (.typeError "buffer is too small for requested array")
      else .ok (contiguousArray b d shape)
  | _, _ => .error (.typeError "an integer is required")

def readIntWidth : ℕ → Option IntWidth
  | 1 => some .w8
  | 2 => some .w16
  | 4 => some .w32
  | 8 => some .w64
  | _ => none

instance (t : IntType) (z : ℤ) : Decidable (t.InRange z) :=
  inferInstanceAs (Decidable (if t.signed then _ else _))

def referenceInt (signed : Bool) (size : ℕ) (z : ℤ) : Except WireError (PyObj F) :=
  match readIntWidth size with
  | some width =>
      if h : IntType.InRange ⟨signed, width⟩ z then .ok (.generic (.int ⟨signed, width⟩ ⟨z, h⟩))
      else .error (.valueError "Python integer out of bounds")
  | none => .error (.typeError "not an integer type")

/-- `d.type(value)`. -/
def referenceScalar (d : NpDType) (value : PyObj F) : Except WireError (PyObj F) :=
  match d.kind, value with
  | .bool, .bool b => .ok (.generic (.bool b))
  | .int, .int z => referenceInt true d.size z
  | .uint, .int z => referenceInt false d.size z
  | .float, .float x =>
      match d.size with
      | 2 => .ok (.generic (.float16 (F.toHalf x)))
      | 4 => .ok (.generic (.float32 (F.toSingle x)))
      | 8 => .ok (.generic (.float64 x))
      | _ => .error (.typeError "not a float of this width")
  | .datetime, .none => .ok (.generic (.datetime64 none none))
  | .datetime, .int _ =>
      .error (.valueError
        "Converting an integer to a NumPy datetime requires a specified unit")
  | .timedelta, .none => .ok (.generic (.timedelta64 none none))
  | .timedelta, .int z => .ok (.generic (.timedelta64 none (some z)))
  | _, _ => .error (.typeError "cannot convert")

/-- Units that `item()` gives back as an integer. -/
def TimeBase.isFine : TimeBase → Bool
  | .nano | .pico | .femto | .atto => true
  | _ => false

/-- `s.item()`, with one object for everything that is no native value. -/
def referenceItem : NpScalar F → PyObj F
  | .bool b => .bool b
  | .int _ v => .int v
  | .float16 x => .float (F.ofHalf x)
  | .float32 x => .float (F.ofSingle x)
  | .float64 x => .float x
  | .longdouble x => .generic (.longdouble x)
  | .complex _ _ => .other 0
  | .bytes b => .bytes b
  | .str s => .str s
  | .void data => .bytes data
  | .datetime64 (some unit) (some ticks) => if unit.base.isFine then .int ticks else .other 0
  | .datetime64 _ _ => .none
  | .timedelta64 _ none => .none
  | .timedelta64 none (some ticks) => .int ticks
  | .timedelta64 (some unit) (some ticks) =>
      if unit.base.isFine || unit.base = .year || unit.base = .month then .int ticks else .other 0

def referenceDType : PyObj F → Except WireError NpDType
  | .str s =>
      match readTypeString s.toList with
      | some d => .ok d
      | none => .error (.typeError ("data type '" ++ s ++ "' not understood"))
  | _ => .error (.typeError "Cannot interpret as a data type")

def referenceName (d : NpDType) : String :=
  match d.kind with
  | .complex => "complex" ++ toString (8 * d.size)
  | .object => "object"
  | _ => typeString d

def referenceNumPy (F : FloatFormats) : NumPy F where
  tobytes := NdArray.cOrderBytes
  dtypeStr := typeString
  dtypeName := referenceName
  item := referenceItem
  dtype := referenceDType
  ndarray := referenceNdarray
  scalar := referenceScalar

theorem referenceNumPy_lawful (F : FloatFormats) : (referenceNumPy F).Lawful where
  tobytes_eq := fun _ => rfl
  dtype_str := by
    intro d hsupported hvar
    have hobject : d.kind ≠ .object := by
      intro hkind
      rw [hkind] at hsupported
      exact absurd hsupported (by decide)
    show referenceDType (F := F) (.str (typeString d)) = .ok d
    rw [referenceDType, readTypeString_typeString hobject hvar]
  dtype_varString := by
    intro d hd
    show ∃ e, referenceDType (F := F) (.str (typeString d)) = .error e
    rw [referenceDType, readTypeString_varString hd]
    exact ⟨_, rfl⟩
  ndarray_buffer := by
    intro buffer d shape _ _ hbuffer
    refine ⟨contiguousArray buffer d shape, ?_, rfl, rfl, ?_⟩
    · show referenceNdarray (F := F) (.bytes buffer) d (shapeList shape) = _
      simp only [referenceNdarray, readShape_shapeList]
      exact if_neg (by rw [hbuffer]; exact Nat.lt_irrefl _)
    · intro idx hidx k hk
      exact getElem?_contiguousArray hbuffer hidx hk
  item_bool := fun _ => rfl
  item_int := fun _ _ => rfl
  item_float16 := fun _ => rfl
  item_float32 := fun _ => rfl
  item_longdouble := fun _ => rfl
  item_datetime_nat := by
    intro unit
    cases unit <;> rfl
  item_datetime_generic := fun _ => rfl
  item_datetime_unit := by
    intro unit ticks
    cases h : unit.base.isFine with
    | true => exact Or.inl ⟨ticks, if_pos h⟩
    | false => exact Or.inr ⟨0, if_neg (by rw [h]; exact Bool.false_ne_true)⟩
  item_timedelta_nat := by
    intro unit
    cases unit <;> rfl
  item_timedelta_generic := fun _ => rfl
  item_timedelta_unit := by
    intro unit ticks
    cases h : (unit.base.isFine || unit.base = .year || unit.base = .month) with
    | true => exact Or.inl ⟨ticks, if_pos h⟩
    | false => exact Or.inr ⟨0, if_neg (by rw [h]; exact Bool.false_ne_true)⟩
  scalar_bool := fun _ => rfl
  scalar_int := by
    rintro ⟨signed, width⟩ ⟨z, hz⟩
    cases signed <;> cases width <;> exact dif_pos hz
  scalar_float16 := fun _ => rfl
  scalar_float32 := fun _ => rfl
  scalar_datetime_none := fun _ => rfl
  scalar_datetime_int := fun _ _ => ⟨_, rfl⟩
  scalar_timedelta_none := fun _ => rfl
  scalar_timedelta_int := fun _ _ => rfl

end P2PRdt.Robot

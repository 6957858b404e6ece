import P2PRdt.Lib.Indices
import Mathlib.Data.List.Forall2

/-!
# The objects of a payload

Python values with NumPy arrays and NumPy scalars among them. An array is a view
of memory: its entries may be anywhere, forwards or backwards, in either byte
order. A payload is built from dictionaries with string keys, lists, native
scalars, arrays and NumPy scalars.
-/

namespace P2PRdt.Robot

open Lib

/-- The floating point types. Widening loses nothing. -/
structure FloatFormats where
  half : Type
  single : Type
  double : Type
  extended : Type
  ofHalf : half → double
  toHalf : double → half
  ofSingle : single → double
  toSingle : double → single
  toHalf_ofHalf : ∀ x, toHalf (ofHalf x) = x
  toSingle_ofSingle : ∀ x, toSingle (ofSingle x) = x

/-! ## NumPy -/

/-- `dtype.kind`, one of `b i u f c S U V O M m T`. -/
inductive DTypeKind where
  | bool
  | int
  | uint
  | float
  | complex
  | bytes
  | str
  | void
  | object
  | datetime
  | timedelta
  | varString
deriving DecidableEq, Repr

inductive ByteOrder where
  | little
  | big
  | notApplicable
deriving DecidableEq, Repr

inductive TimeBase where
  | year
  | month
  | week
  | day
  | hour
  | minute
  | second
  | milli
  | micro
  | nano
  | pico
  | femto
  | atto
deriving DecidableEq, Repr

/-- The unit of a time, such as `25s`. -/
structure TimeUnit where
  count : ℕ
  base : TimeBase
  count_pos : 0 < count
deriving DecidableEq, Repr

/-- The sizes, byte orders and units that the kinds have. -/
def validDType (kind : DTypeKind) (size : ℕ) (order : ByteOrder) (unit : Option TimeUnit) : Bool :=
  match kind with
  | .bool => size = 1 && order = .notApplicable && unit = none
  | .int | .uint =>
      (size = 1 && order = .notApplicable ||
        (size = 2 || size = 4 || size = 8) && order ≠ .notApplicable) && unit = none
  | .float =>
      (size = 2 || size = 4 || size = 8 || size = 16) && order ≠ .notApplicable && unit = none
  | .complex => (size = 8 || size = 16 || size = 32) && order ≠ .notApplicable && unit = none
  | .bytes | .void => order = .notApplicable && unit = none
  | .str => order ≠ .notApplicable && unit = none
  | .object => size = 8 && order = .notApplicable && unit = none
  | .datetime | .timedelta => size = 8 && order ≠ .notApplicable
  | .varString => size = 16 && order = .notApplicable && unit = none

/-- A dtype. The size of a string type counts characters, of the others bytes. A
time without a unit is generic. -/
structure NpDType where
  kind : DTypeKind
  size : ℕ
  order : ByteOrder
  unit : Option TimeUnit
  valid : validDType kind size order unit = true
deriving DecidableEq, Repr

def NpDType.itemsize (d : NpDType) : ℕ := if d.kind = .str then 4 * d.size else d.size

/-- The kinds that the wire format refuses. -/
def DTypeKind.isUnsupported (k : DTypeKind) : Bool := k = .void || k = .object || k = .complex

inductive IntWidth where
  | w8
  | w16
  | w32
  | w64
deriving DecidableEq, Repr

def IntWidth.bytes : IntWidth → ℕ
  | .w8 => 1
  | .w16 => 2
  | .w32 => 4
  | .w64 => 8

structure IntType where
  signed : Bool
  width : IntWidth
deriving DecidableEq, Repr

def IntType.InRange (t : IntType) (z : ℤ) : Prop :=
  if t.signed then -2 ^ (8 * t.width.bytes - 1) ≤ z ∧ z < 2 ^ (8 * t.width.bytes - 1)
  else 0 ≤ z ∧ z < 2 ^ (8 * t.width.bytes)

inductive ComplexWidth where
  | w64
  | w128
  | w256
deriving DecidableEq, Repr

def ComplexWidth.bytes : ComplexWidth → ℕ
  | .w64 => 8
  | .w128 => 16
  | .w256 => 32

/-- An instance of `np.generic`. A time without ticks is `NaT`. -/
inductive NpScalar (F : FloatFormats) where
  | bool (b : Bool)
  | int (t : IntType) (v : {z : ℤ // t.InRange z})
  | float16 (x : F.half)
  | float32 (x : F.single)
  | float64 (x : F.double)
  | longdouble (x : F.extended)
  | complex (width : ComplexWidth) (data : List UInt8)
  | bytes (b : List UInt8)
  | str (s : String)
  | void (data : List UInt8)
  | datetime64 (unit : Option TimeUnit) (ticks : Option ℤ)
  | timedelta64 (unit : Option TimeUnit) (ticks : Option ℤ)

namespace NpScalar

def boolDType : NpDType := ⟨.bool, 1, .notApplicable, none, rfl⟩

def intDType (t : IntType) : NpDType :=
  ⟨if t.signed then .int else .uint, t.width.bytes,
    if t.width = .w8 then .notApplicable else .little, none, by
      rcases t with ⟨signed, width⟩
      cases signed <;> cases width <;> rfl⟩

def float16DType : NpDType := ⟨.float, 2, .little, none, rfl⟩

def float32DType : NpDType := ⟨.float, 4, .little, none, rfl⟩

def datetimeDType (unit : Option TimeUnit) : NpDType := ⟨.datetime, 8, .little, unit, rfl⟩

def timedeltaDType (unit : Option TimeUnit) : NpDType := ⟨.timedelta, 8, .little, unit, rfl⟩

/-- `scalar.dtype`, in the byte order of the machine. -/
def dtype {F : FloatFormats} : NpScalar F → NpDType
  | .bool _ => boolDType
  | .int t _ => intDType t
  | .float16 _ => float16DType
  | .float32 _ => float32DType
  | .float64 _ => ⟨.float, 8, .little, none, rfl⟩
  | .longdouble _ => ⟨.float, 16, .little, none, rfl⟩
  | .complex width _ => ⟨.complex, width.bytes, .little, none, by cases width <;> rfl⟩
  | .bytes b => ⟨.bytes, b.length, .notApplicable, none, rfl⟩
  | .str s => ⟨.str, s.length, .little, none, rfl⟩
  | .void data => ⟨.void, data.length, .notApplicable, none, rfl⟩
  | .datetime64 unit _ => datetimeDType unit
  | .timedelta64 unit _ => timedeltaDType unit

end NpScalar

def byteOffset : List ℕ → List ℤ → ℤ
  | i :: idx, s :: strides => i * s + byteOffset idx strides
  | _, _ => 0

/-- An array is a view of memory. -/
structure NdArray where
  dtype : NpDType
  shape : List ℕ
  strides : List ℤ
  data : ℤ
  memory : ℤ → UInt8

/-- The bytes of an element. -/
def NdArray.element (a : NdArray) (idx : List ℕ) : List UInt8 :=
  (List.range a.dtype.itemsize).map fun k : ℕ =>
    a.memory (a.data + byteOffset idx a.strides + (k : ℤ))

/-- The bytes of all elements in C order. -/
def NdArray.cOrderBytes (a : NdArray) : List UInt8 := (indices a.shape).flatMap a.element

/-- Equal in dtype, shape and elements. -/
structure NdArray.Same (a b : NdArray) : Prop where
  dtype_eq : a.dtype = b.dtype
  shape_eq : a.shape = b.shape
  element_eq : ∀ idx, InBounds a.shape idx → a.element idx = b.element idx

@[simp] theorem NdArray.length_element (a : NdArray) (idx : List ℕ) :
    (a.element idx).length = a.dtype.itemsize := by
  rw [NdArray.element, List.length_map, List.length_range]

/-! ## Python -/

/-- A key of a dictionary. The keys of type `bytes` are literals of ASCII text. -/
inductive PyDictKey where
  | str (s : String)
  | bytes (b : String)
deriving DecidableEq, Repr

inductive PyObj (F : FloatFormats) where
  | none
  | bool (b : Bool)
  | int (z : ℤ)
  | float (x : F.double)
  | str (s : String)
  | bytes (b : List UInt8)
  | list (l : List (PyObj F))
  | tuple (l : List (PyObj F))
  | dict (m : List (PyDictKey × PyObj F))
  | ndarray (a : NdArray)
  | generic (s : NpScalar F)
  | other (id : ℕ)

/-- An exception. -/
inductive WireError where
  | valueError (message : String)
  | typeError (message : String)
  | keyError (key : String)
deriving DecidableEq, Repr

variable {F : FloatFormats}

/-- The objects inside an object, itself included. -/
inductive Occurs (s : PyObj F) : PyObj F → Prop
  | self : Occurs s s
  | list {l : List (PyObj F)} {o : PyObj F} (hmem : o ∈ l) (h : Occurs s o) : Occurs s (.list l)
  | dict {m : List (PyDictKey × PyObj F)} {e : PyDictKey × PyObj F} (hmem : e ∈ m)
      (h : Occurs s e.2) : Occurs s (.dict m)

/-- A payload of the wire format. -/
inductive IsPayload : PyObj F → Prop
  | none : IsPayload .none
  | bool (b : Bool) : IsPayload (.bool b)
  | int (z : ℤ) : IsPayload (.int z)
  | float (x : F.double) : IsPayload (.float x)
  | str (s : String) : IsPayload (.str s)
  | bytes (b : List UInt8) : IsPayload (.bytes b)
  | list {l : List (PyObj F)} (h : ∀ o ∈ l, IsPayload o) : IsPayload (.list l)
  | dict {m : List (PyDictKey × PyObj F)} (hkeys : ∀ e ∈ m, ∃ s, e.1 = .str s)
      (hdistinct : (m.map Prod.fst).Nodup) (h : ∀ e ∈ m, IsPayload e.2) : IsPayload (.dict m)
  | ndarray (a : NdArray) : IsPayload (.ndarray a)
  | generic (s : NpScalar F) : IsPayload (.generic s)

/-- The same structure with equal values at its leaves. -/
inductive SameObj : PyObj F → PyObj F → Prop
  | none : SameObj .none .none
  | bool (b : Bool) : SameObj (.bool b) (.bool b)
  | int (z : ℤ) : SameObj (.int z) (.int z)
  | float (x : F.double) : SameObj (.float x) (.float x)
  | str (s : String) : SameObj (.str s) (.str s)
  | bytes (b : List UInt8) : SameObj (.bytes b) (.bytes b)
  | list {l l' : List (PyObj F)} (h : List.Forall₂ SameObj l l') : SameObj (.list l) (.list l')
  | dict {m m' : List (PyDictKey × PyObj F)} (hkeys : m.map Prod.fst = m'.map Prod.fst)
      (h : List.Forall₂ SameObj (m.map Prod.snd) (m'.map Prod.snd)) :
      SameObj (.dict m) (.dict m')
  | ndarray {a a' : NdArray} (h : a.Same a') : SameObj (.ndarray a) (.ndarray a')
  | generic (s : NpScalar F) : SameObj (.generic s) (.generic s)

mutual

/-- How deep the packed form is: an array is packed as a dictionary that holds a
tuple, a NumPy scalar as a dictionary. -/
def PyObj.depth : PyObj F → ℕ
  | .list l => depthOfList l + 1
  | .tuple l => depthOfList l + 1
  | .dict m => depthOfEntries m + 1
  | .ndarray _ => 2
  | .generic _ => 1
  | _ => 0

def depthOfList : List (PyObj F) → ℕ
  | [] => 0
  | o :: l => max o.depth (depthOfList l)

def depthOfEntries : List (PyDictKey × PyObj F) → ℕ
  | [] => 0
  | (_, o) :: m => max o.depth (depthOfEntries m)

end

theorem depth_le_depthOfList {l : List (PyObj F)} {o : PyObj F} (h : o ∈ l) :
    o.depth ≤ depthOfList l := by
  induction l with
  | nil => exact absurd h List.not_mem_nil
  | cons a l ih =>
      rw [depthOfList]
      rcases List.mem_cons.mp h with rfl | hmem
      · exact Nat.le_max_left _ _
      · exact (ih hmem).trans (Nat.le_max_right _ _)

theorem depth_le_depthOfEntries {m : List (PyDictKey × PyObj F)} {e : PyDictKey × PyObj F}
    (h : e ∈ m) : e.2.depth ≤ depthOfEntries m := by
  induction m with
  | nil => exact absurd h List.not_mem_nil
  | cons a m ih =>
      rw [depthOfEntries]
      rcases List.mem_cons.mp h with rfl | hmem
      · exact Nat.le_max_left _ _
      · exact (ih hmem).trans (Nat.le_max_right _ _)

theorem sameObj_dict_iff {m m' : List (PyDictKey × PyObj F)} :
    SameObj (.dict m) (.dict m') ↔
      List.Forall₂ (fun e e' => e.1 = e'.1 ∧ SameObj e.2 e'.2) m m' := by
  constructor
  · intro h
    cases h with
    | dict hkeys hvalues =>
        induction m generalizing m' with
        | nil =>
            obtain rfl := List.map_eq_nil_iff.mp hkeys.symm
            exact .nil
        | cons e m ih =>
            obtain ⟨e', m', rfl⟩ := List.exists_cons_of_ne_nil
              (l := m') (by rintro rfl; cases hvalues)
            rw [List.map_cons, List.map_cons, List.cons.injEq] at hkeys
            rw [List.map_cons, List.map_cons, List.forall₂_cons] at hvalues
            exact .cons ⟨hkeys.1, hvalues.1⟩ (ih hkeys.2 hvalues.2)
  · intro h
    refine .dict ?_ ?_
    · induction h with
      | nil => rfl
      | cons hkey _ ih => rw [List.map_cons, List.map_cons, hkey.1, ih]
    · rw [List.forall₂_map_left_iff, List.forall₂_map_right_iff]
      exact h.imp fun _ _ he => he.2

end P2PRdt.Robot

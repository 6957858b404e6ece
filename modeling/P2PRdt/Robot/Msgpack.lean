import P2PRdt.Lib.ExceptLists
import P2PRdt.Robot.PyObjects

/-!
# Packing with a default and unpacking with a hook

How msgpack walks an object. Native types and instances of their subclasses are
packed as they are, on anything else `default` is called once and its result has
to be native. Unpacking calls `object_hook` on every dictionary after its
entries. The bytes themselves are left to a lossless encoding.
-/

namespace P2PRdt.Robot

open Lib

/-- What stands on the wire. -/
inductive Packed (F : FloatFormats) where
  | nil
  | bool (b : Bool)
  | int (z : ℤ)
  | float (x : F.double)
  | str (s : String)
  | bin (b : List UInt8)
  | array (l : List (Packed F))
  | map (m : List (PyDictKey × Packed F))

variable {F : FloatFormats}

/-! ## Packing -/

/-- `Packer._pack_inner`, nothing where a default is needed. `np.float64`, `np.str_` and
`np.bytes_` are subclasses of `float`, `str` and `bytes`. -/
def packInner (pack : PyObj F → Except WireError (Packed F)) :
    PyObj F → Option (Except WireError (Packed F))
  | .none => some (.ok .nil)
  | .bool b => some (.ok (.bool b))
  | .int z => some (.ok (.int z))
  | .float x => some (.ok (.float x))
  | .str s => some (.ok (.str s))
  | .bytes b => some (.ok (.bin b))
  | .generic (.float64 x) => some (.ok (.float x))
  | .generic (.str s) => some (.ok (.str s))
  | .generic (.bytes b) => some (.ok (.bin b))
  | .list l => some ((l.mapM pack).map .array)
  | .tuple l => some ((l.mapM pack).map .array)
  | .dict m => some ((m.mapM fun e => (pack e.2).map fun p => (e.1, p)).map .map)
  | _ => none

/-- `Packer._pack` with so many levels left. -/
def pack (default : PyObj F → Except WireError (PyObj F)) :
    ℕ → PyObj F → Except WireError (Packed F)
  | 0, _ => .error (.valueError "recursion limit exceeded.")
  | n + 1, o =>
      match packInner (pack default n) o with
      | some packed => packed
      | none =>
          match default o with
          | .error e => .error e
          | .ok o' => (packInner (pack default n) o').getD (.error (.typeError "can not serialize"))

/-! ## Unpacking -/

mutual

def unpack (objectHook : List (PyDictKey × PyObj F) → Except WireError (PyObj F)) :
    Packed F → Except WireError (PyObj F)
  | .nil => .ok .none
  | .bool b => .ok (.bool b)
  | .int z => .ok (.int z)
  | .float x => .ok (.float x)
  | .str s => .ok (.str s)
  | .bin b => .ok (.bytes b)
  | .array l => (unpackAll objectHook l).map .list
  | .map m => unpackEntries objectHook m >>= objectHook

def unpackAll (objectHook : List (PyDictKey × PyObj F) → Except WireError (PyObj F)) :
    List (Packed F) → Except WireError (List (PyObj F))
  | [] => .ok []
  | p :: l => do
      let o ← unpack objectHook p
      let rest ← unpackAll objectHook l
      return o :: rest

def unpackEntries (objectHook : List (PyDictKey × PyObj F) → Except WireError (PyObj F)) :
    List (PyDictKey × Packed F) → Except WireError (List (PyDictKey × PyObj F))
  | [] => .ok []
  | (key, p) :: m => do
      let o ← unpack objectHook p
      let rest ← unpackEntries objectHook m
      return (key, o) :: rest

end

/-- The packer and the unpacker of msgpack. -/
structure Msgpack (F : FloatFormats) (Bytes : Type) where
  nestLimit : ℕ
  encode : Packed F → Bytes
  decode : Bytes → Except WireError (Packed F)
  lossless : ∀ p, decode (encode p) = .ok p

variable {Bytes : Type}

/-- `msgpack.packb`. -/
def Msgpack.packb (mp : Msgpack F Bytes) (default : PyObj F → Except WireError (PyObj F))
    (o : PyObj F) : Except WireError Bytes :=
  (pack default (mp.nestLimit + 1) o).map mp.encode

/-- `msgpack.unpackb`. -/
def Msgpack.unpackb (mp : Msgpack F Bytes)
    (objectHook : List (PyDictKey × PyObj F) → Except WireError (PyObj F)) (b : Bytes) :
    Except WireError (PyObj F) :=
  mp.decode b >>= unpack objectHook

/-! ## Rules -/

section Rules

variable {default : PyObj F → Except WireError (PyObj F)}
  {hook : List (PyDictKey × PyObj F) → Except WireError (PyObj F)}

theorem unpackAll_eq_mapM (l : List (Packed F)) : unpackAll hook l = l.mapM (unpack hook) := by
  induction l with
  | nil => rfl
  | cons p l ih =>
      rw [unpackAll, List.mapM_cons, ih]

theorem unpackEntries_eq_mapM (m : List (PyDictKey × Packed F)) :
    unpackEntries hook m = m.mapM fun e => (unpack hook e.2).map fun o => (e.1, o) := by
  induction m with
  | nil => rfl
  | cons e m ih =>
      rcases e with ⟨key, p⟩
      rw [unpackEntries, List.mapM_cons, ih]
      cases unpack hook p <;> rfl

/-- An object that is packed as it is. -/
theorem pack_of_native {n : ℕ} {o : PyObj F} {packed : Except WireError (Packed F)}
    (h : packInner (pack default n) o = some packed) : pack default (n + 1) o = packed := by
  rw [pack, h]

/-- An object that needs a default. -/
theorem pack_of_default {n : ℕ} {o o' : PyObj F} {packed : Except WireError (Packed F)}
    (h : packInner (pack default n) o = none) (hdefault : default o = .ok o')
    (h' : packInner (pack default n) o' = some packed) : pack default (n + 1) o = packed := by
  rw [pack, h, hdefault]
  show (packInner (pack default n) o').getD _ = _
  rw [h', Option.getD_some]

theorem pack_of_default_error {n : ℕ} {o : PyObj F} {e : WireError}
    (h : packInner (pack default n) o = none) (hdefault : default o = .error e) :
    pack default (n + 1) o = .error e := by
  rw [pack, h, hdefault]

/-- An object that comes back from the wire as it was. -/
def RoundTrips (default : PyObj F → Except WireError (PyObj F))
    (hook : List (PyDictKey × PyObj F) → Except WireError (PyObj F)) (n : ℕ) (o : PyObj F) :
    Prop :=
  ∃ p o', pack default n o = .ok p ∧ unpack hook p = .ok o' ∧ SameObj o o'

theorem map_eq_ok {α β : Type} {f : α → β} {x : Except WireError α} {b : β} :
    x.map f = .ok b ↔ ∃ a, x = .ok a ∧ f a = b := by
  cases x with
  | error e =>
      constructor
      · intro h
        cases h
      · rintro ⟨a, ha, -⟩
        cases ha
  | ok a =>
      constructor
      · intro h
        exact ⟨a, rfl, Except.ok.inj h⟩
      · rintro ⟨a', ha, rfl⟩
        rw [Except.ok.inj ha]
        rfl

/-- A list comes back when its entries do. -/
theorem roundTrips_list {n : ℕ} {l : List (PyObj F)} :
    RoundTrips default hook (n + 1) (.list l) ↔ ∀ o ∈ l, RoundTrips default hook n o := by
  have hpack : pack default (n + 1) (.list l) = (l.mapM (pack default n)).map .array :=
    pack_of_native rfl
  rw [RoundTrips, hpack]
  refine Iff.trans ?_ (forall₂_passes (P := fun o p => pack default n o = .ok p)
    (Q := fun p o' => unpack hook p = .ok o') (R := SameObj))
  constructor
  · rintro ⟨p, o', hp, ho', hsame⟩
    obtain ⟨ps, hps, rfl⟩ := map_eq_ok.mp hp
    rw [unpack, unpackAll_eq_mapM] at ho'
    obtain ⟨os, hos, rfl⟩ := map_eq_ok.mp ho'
    cases hsame with
    | list hall => exact ⟨ps, os, mapM_eq_ok_iff.mp hps, mapM_eq_ok_iff.mp hos, hall⟩
  · rintro ⟨ps, os, hps, hos, hall⟩
    refine ⟨.array ps, .list os, map_eq_ok.mpr ⟨ps, mapM_eq_ok_iff.mpr hps, rfl⟩, ?_, .list hall⟩
    rw [unpack, unpackAll_eq_mapM]
    exact map_eq_ok.mpr ⟨os, mapM_eq_ok_iff.mpr hos, rfl⟩

/-- A pass over the values of a dictionary keeps the keys. -/
theorem keys_of_pass {α β : Type} {f : α → Except WireError β} {m : List (PyDictKey × α)}
    {m' : List (PyDictKey × β)}
    (h : List.Forall₂ (fun e e' => (f e.2).map (fun b => (e.1, b)) = .ok e') m m') :
    m'.map Prod.fst = m.map Prod.fst := by
  induction h with
  | nil => rfl
  | cons he _ ih =>
      obtain ⟨b, -, rfl⟩ := map_eq_ok.mp he
      rw [List.map_cons, List.map_cons, ih]

/-- A dictionary that the hook leaves alone comes back when its values do. -/
theorem roundTrips_dict {n : ℕ} {m : List (PyDictKey × PyObj F)}
    (hhook : ∀ m' : List (PyDictKey × PyObj F), m'.map Prod.fst = m.map Prod.fst →
      hook m' = .ok (.dict m')) :
    RoundTrips default hook (n + 1) (.dict m) ↔ ∀ e ∈ m, RoundTrips default hook n e.2 := by
  have hpack : pack default (n + 1) (.dict m) =
      (m.mapM fun e => (pack default n e.2).map fun p => (e.1, p)).map .map := pack_of_native rfl
  have hpasses := forall₂_passes (l := m)
    (P := fun e q => (pack default n e.2).map (fun p => (e.1, p)) = .ok q)
    (Q := fun q e' => (unpack hook q.2).map (fun o => (q.1, o)) = .ok e')
    (R := fun e e' => e.1 = e'.1 ∧ SameObj e.2 e'.2)
  have hentry : ∀ e : PyDictKey × PyObj F,
      (∃ q e', (pack default n e.2).map (fun p => (e.1, p)) = .ok q ∧
        (unpack hook q.2).map (fun o => (q.1, o)) = .ok e' ∧ e.1 = e'.1 ∧ SameObj e.2 e'.2) ↔
      RoundTrips default hook n e.2 := by
    intro e
    constructor
    · rintro ⟨q, e', hq, he', -, hsame⟩
      obtain ⟨p, hp, rfl⟩ := map_eq_ok.mp hq
      obtain ⟨o', ho', rfl⟩ := map_eq_ok.mp he'
      exact ⟨p, o', hp, ho', hsame⟩
    · rintro ⟨p, o', hp, ho', hsame⟩
      exact ⟨(e.1, p), (e.1, o'), map_eq_ok.mpr ⟨p, hp, rfl⟩, map_eq_ok.mpr ⟨o', ho', rfl⟩, rfl,
        hsame⟩
  simp only [hentry] at hpasses
  rw [← hpasses, RoundTrips, hpack]
  constructor
  · rintro ⟨p, o', hp, ho', hsame⟩
    obtain ⟨ps, hps, rfl⟩ := map_eq_ok.mp hp
    rw [unpack, unpackEntries_eq_mapM] at ho'
    cases hos : ps.mapM fun e => (unpack hook e.2).map fun o => (e.1, o) with
    | error e =>
        rw [hos] at ho'
        cases ho'
    | ok os =>
        have hps' := mapM_eq_ok_iff.mp hps
        have hos' := mapM_eq_ok_iff.mp hos
        have hsameDict : hook os = .ok o' := by
          rw [hos] at ho'
          exact ho'
        rw [hhook os ((keys_of_pass hos').trans (keys_of_pass hps'))] at hsameDict
        obtain rfl := Except.ok.inj hsameDict
        exact ⟨ps, os, hps', hos', sameObj_dict_iff.mp hsame⟩
  · rintro ⟨ps, os, hps, hos, hall⟩
    refine ⟨.map ps, .dict os, map_eq_ok.mpr ⟨ps, mapM_eq_ok_iff.mpr hps, rfl⟩, ?_,
      sameObj_dict_iff.mpr hall⟩
    rw [unpack, unpackEntries_eq_mapM, mapM_eq_ok_iff.mpr hos]
    exact hhook os ((keys_of_pass hos).trans (keys_of_pass hps))

end Rules

end P2PRdt.Robot

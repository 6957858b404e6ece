import P2PRdt.Robot.PyObjects

/-!
# Type strings

A dtype as a string such as `<f4`, `|S5` or `>M8[25s]`: byte order, kind, size and
unit. A reader of these strings finds every dtype that a string can name again.
-/

namespace P2PRdt.Robot

def ByteOrder.char : ByteOrder → Char
  | .little => '<'
  | .big => '>'
  | .notApplicable => '|'

def DTypeKind.char : DTypeKind → Char
  | .bool => 'b'
  | .int => 'i'
  | .uint => 'u'
  | .float => 'f'
  | .complex => 'c'
  | .bytes => 'S'
  | .str => 'U'
  | .void => 'V'
  | .object => 'O'
  | .datetime => 'M'
  | .timedelta => 'm'
  | .varString => 'T'

def TimeBase.chars : TimeBase → List Char
  | .year => ['Y']
  | .month => ['M']
  | .week => ['W']
  | .day => ['D']
  | .hour => ['h']
  | .minute => ['m']
  | .second => ['s']
  | .milli => ['m', 's']
  | .micro => ['u', 's']
  | .nano => ['n', 's']
  | .pico => ['p', 's']
  | .femto => ['f', 's']
  | .atto => ['a', 's']

def TimeUnit.chars (u : TimeUnit) : List Char :=
  '[' :: ((if u.count = 1 then [] else Nat.toDigits 10 u.count) ++ (u.base.chars ++ [']']))

def unitChars (unit : Option TimeUnit) : List Char := unit.elim [] TimeUnit.chars

def NpDType.chars (d : NpDType) : List Char :=
  d.order.char :: d.kind.char ::
    ((if d.kind = .object then [] else Nat.toDigits 10 d.size) ++ unitChars d.unit)

/-- `d.str`. -/
def typeString (d : NpDType) : String := String.ofList d.chars

/-! ## Reading -/

def readOrder : Char → Option ByteOrder
  | '<' => some .little
  | '>' => some .big
  | '|' => some .notApplicable
  | _ => none

/-- Objects and strings of variable width are not read back. -/
def readKind : Char → Option DTypeKind
  | 'b' => some .bool
  | 'i' => some .int
  | 'u' => some .uint
  | 'f' => some .float
  | 'c' => some .complex
  | 'S' => some .bytes
  | 'U' => some .str
  | 'V' => some .void
  | 'M' => some .datetime
  | 'm' => some .timedelta
  | _ => none

def readBase : List Char → Option TimeBase
  | ['Y', ']'] => some .year
  | ['M', ']'] => some .month
  | ['W', ']'] => some .week
  | ['D', ']'] => some .day
  | ['h', ']'] => some .hour
  | ['m', ']'] => some .minute
  | ['s', ']'] => some .second
  | ['m', 's', ']'] => some .milli
  | ['u', 's', ']'] => some .micro
  | ['n', 's', ']'] => some .nano
  | ['p', 's', ']'] => some .pico
  | ['f', 's', ']'] => some .femto
  | ['a', 's', ']'] => some .atto
  | _ => none

/-- A number and what follows. No digits read as the number `n`. -/
def readNumber (n : ℕ) (l : List Char) : ℕ × List Char :=
  let digits := l.takeWhile Char.isDigit
  (if digits = [] then n else Nat.ofDigitChars 10 digits 0, l.dropWhile Char.isDigit)

def readUnit : List Char → Option (Option TimeUnit)
  | [] => some none
  | '[' :: l =>
      (readBase (readNumber 1 l).2).bind fun base =>
        if h : 0 < (readNumber 1 l).1 then some (some ⟨(readNumber 1 l).1, base, h⟩) else none
  | _ => none

/-- `np.dtype(s)` of a type string. -/
def readTypeString : List Char → Option NpDType
  | o :: k :: l =>
      (readOrder o).bind fun order =>
        (readKind k).bind fun kind =>
          (readUnit (readNumber 0 l).2).bind fun unit =>
            if h : validDType kind (readNumber 0 l).1 order unit = true then
              some ⟨kind, (readNumber 0 l).1, order, unit, h⟩
            else none
  | _ => none

theorem readOrder_char (o : ByteOrder) : readOrder o.char = some o := by
  cases o <;> rfl

theorem readKind_char {k : DTypeKind} (hobject : k ≠ .object) (hvar : k ≠ .varString) :
    readKind k.char = some k := by
  cases k with
  | object => exact absurd rfl hobject
  | varString => exact absurd rfl hvar
  | _ => rfl

theorem readBase_chars (b : TimeBase) : readBase (b.chars ++ [']']) = some b := by
  cases b <;> rfl

/-- A list that does not go on with digits. -/
def NoDigit (l : List Char) : Prop := l.takeWhile Char.isDigit = [] ∧ l.dropWhile Char.isDigit = l

theorem noDigit_base (b : TimeBase) : NoDigit (b.chars ++ [']']) := by
  cases b <;> exact ⟨rfl, rfl⟩

theorem noDigit_unit (unit : Option TimeUnit) : NoDigit (unitChars unit) := by
  cases unit <;> exact ⟨rfl, rfl⟩

theorem readNumber_digits (m n : ℕ) {l : List Char} (hl : NoDigit l) :
    readNumber m (Nat.toDigits 10 n ++ l) = (n, l) := by
  have hdigits : ∀ c ∈ Nat.toDigits 10 n, c.isDigit = true := by
    intro c hc
    exact Nat.isDigit_of_mem_toDigits (by decide) (by decide) hc
  have htake : (Nat.toDigits 10 n ++ l).takeWhile Char.isDigit = Nat.toDigits 10 n := by
    rw [List.takeWhile_append_of_pos hdigits, hl.1, List.append_nil]
  have hdrop : (Nat.toDigits 10 n ++ l).dropWhile Char.isDigit = l := by
    rw [List.dropWhile_append_of_pos hdigits, hl.2]
  rw [readNumber, htake, hdrop]
  simp only [if_neg Nat.toDigits_ne_nil, Nat.ofDigitChars_ten_toDigits]

theorem readNumber_noDigit (m : ℕ) {l : List Char} (hl : NoDigit l) : readNumber m l = (m, l) := by
  rw [readNumber, hl.1, hl.2]
  rfl

theorem readUnit_chars (unit : Option TimeUnit) : readUnit (unitChars unit) = some unit := by
  cases unit with
  | none => rfl
  | some u =>
      have hnumber : readNumber 1 ((if u.count = 1 then [] else Nat.toDigits 10 u.count) ++
          (u.base.chars ++ [']'])) = (u.count, u.base.chars ++ [']']) := by
        by_cases hone : u.count = 1
        · rw [if_pos hone, List.nil_append, readNumber_noDigit 1 (noDigit_base u.base), hone]
        · rw [if_neg hone, readNumber_digits 1 u.count (noDigit_base u.base)]
      rw [unitChars, Option.elim_some, TimeUnit.chars, readUnit, hnumber]
      simp only [readBase_chars, Option.bind_some, dif_pos u.count_pos]

/-- The string of a dtype names it. -/
theorem readTypeString_typeString {d : NpDType} (hobject : d.kind ≠ .object)
    (hvar : d.kind ≠ .varString) : readTypeString (typeString d).toList = some d := by
  have hnumber : readNumber 0 ((if d.kind = .object then [] else Nat.toDigits 10 d.size) ++
      unitChars d.unit) = (d.size, unitChars d.unit) := by
    rw [if_neg hobject, readNumber_digits 0 d.size (noDigit_unit d.unit)]
  rw [typeString, String.toList_ofList, NpDType.chars, readTypeString, hnumber, readOrder_char,
    readKind_char hobject hvar]
  simp only [Option.bind_some, readUnit_chars, dif_pos d.valid]

theorem readTypeString_varString {d : NpDType} (hd : d.kind = .varString) :
    readTypeString (typeString d).toList = none := by
  rw [typeString, String.toList_ofList, NpDType.chars, readTypeString, readOrder_char, hd]
  rfl

end P2PRdt.Robot

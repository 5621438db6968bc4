/-!
# Numerals

A value is a signed 64-bit integer. Numerals are decimal: an optional sign and one or more
ASCII digits, read from left to right. The first character that cannot be accepted decides
the fault, and at that character a missing digit is noticed before an overflow. Arithmetic
is done on unbounded integers, and `fit?` says which of them are values.
-/

namespace GenomeScript

/-- The integers held by sysvars. -/
abbrev Value := Int64

/-- The value equal to an integer, if there is one. -/
def fit? (n : Int) : Option Value :=
  if Int64.minValue.toInt ≤ n ∧ n ≤ Int64.maxValue.toInt then some (Int64.ofInt n) else none

/-- An integer fits exactly when it is the integer of the resulting value. -/
theorem fit?_eq_some_iff {n : Int} {v : Value} : fit? n = some v ↔ v.toInt = n := by
  unfold fit?
  split
  next h =>
    rw [Option.some.injEq]
    constructor
    · rintro rfl
      exact Int64.toInt_ofInt_of_le h.1 (Int.lt_add_one_of_le h.2)
    · rintro rfl
      exact Int64.ofInt_toInt v
  next h =>
    simp only [reduceCtorEq, false_iff]
    rintro rfl
    exact h ⟨v.minValue_le_toInt, v.toInt_le⟩

/-- Every value fits. -/
@[simp] theorem fit?_toInt (v : Value) : fit? v.toInt = some v :=
  fit?_eq_some_iff.mpr rfl

/-- An integer without a value lies outside the 64-bit range. -/
theorem fit?_eq_none_iff {n : Int} :
    fit? n = none ↔ n < Int64.minValue.toInt ∨ Int64.maxValue.toInt < n := by
  unfold fit?
  split
  next h =>
    simp only [reduceCtorEq, false_iff]
    omega
  next h =>
    simp only [true_iff]
    omega

namespace Numeral

/-- Why a text is not a numeral of the wanted range. -/
inductive Fault where
  | empty
  | invalidDigit
  | tooLarge
  | tooSmall
deriving DecidableEq, Repr

/-- The wording of a fault. -/
def Fault.message : Fault → String
  | .empty => "cannot parse integer from empty string"
  | .invalidDigit => "invalid digit found in string"
  | .tooLarge => "number too large to fit in target type"
  | .tooSmall => "number too small to fit in target type"

/-- The digit that an ASCII character stands for. -/
def digit? (c : Char) : Option Nat :=
  if c.isDigit then some (c.toNat - '0'.toNat) else none

/-- Read digits onto a magnitude that may not pass `limit`, with `excess` as the fault if it does. -/
def readOnto (limit : Nat) (excess : Fault) : Nat → List Char → Except Fault Nat
  | magnitude, [] => .ok magnitude
  | magnitude, c :: cs =>
    match digit? c with
    | none => .error .invalidDigit
    | some d =>
      if 10 * magnitude + d ≤ limit then readOnto limit excess (10 * magnitude + d) cs
      else .error excess

/-- Read one or more digits. Where a digit has to come and none does, the text is invalid. -/
def readDigits (limit : Nat) (excess : Fault) : List Char → Except Fault Nat
  | [] => .error .invalidDigit
  | c :: cs => readOnto limit excess 0 (c :: cs)

/-- The greatest value. -/
def greatest : Nat := 9223372036854775807

/-- The magnitude of the least value. -/
def leastMagnitude : Nat := 9223372036854775808

/-- The greatest count. -/
def greatestCount : Nat := 18446744073709551615

/-- Read a numeral with an optional sign as a value. -/
def readValue : List Char → Except Fault Value
  | [] => .error .empty
  | '-' :: cs => (readDigits leastMagnitude .tooSmall cs).map fun (n : Nat) => Int64.ofInt (-n)
  | '+' :: cs => (readDigits greatest .tooLarge cs).map fun (n : Nat) => Int64.ofInt n
  | cs => (readDigits greatest .tooLarge cs).map fun (n : Nat) => Int64.ofInt n

/-- Read a numeral without a minus sign as an unsigned 64-bit count. -/
def readCount : List Char → Except Fault Nat
  | [] => .error .empty
  | '+' :: cs => readDigits greatestCount .tooLarge cs
  | cs => readDigits greatestCount .tooLarge cs

/-- The decimal digits of a natural number, without leading zeros. -/
def digits (n : Nat) : List Char :=
  Nat.toDigits 10 n

/-- The decimal text of an integer: a minus sign if it is negative, then its digits. -/
def write (n : Int) : List Char :=
  if n < 0 then '-' :: digits n.natAbs else digits n.natAbs

/-- The decimal text of a value. -/
def render (v : Value) : String :=
  String.ofList (write v.toInt)

/-- The decimal text of a count. -/
def renderCount (n : Nat) : String :=
  String.ofList (digits n)

end Numeral

end GenomeScript

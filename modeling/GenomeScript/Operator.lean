import GenomeScript.Numeral
import GenomeScript.Text

/-!
# Operands and operators

An operand is what evaluation hands from one command to the next: nothing, a number, or the text of
a name. Text counts as a number when it is a numeral between blanks, and blank text counts as zero,
like nothing at all.

Division rounds up: it takes the quotient that is rounded toward zero, and one more where the
remainder shows that this was rounding down. The result of an operator counts as zero when an
operand is no number, when the divisor is zero, and when the result is not a value.
-/

namespace GenomeScript

/-! ## Operands -/

/-- The result of evaluating a command. -/
inductive Operand where
  | absent
  | number (value : Value)
  | text (name : String)
deriving DecidableEq, Repr

namespace Operand

/-- The number spelled by a text, blanks around it aside. Blank text spells zero. -/
def numberOfText? (text : String) : Option Value :=
  match Text.trim text.toList with
  | [] => some 0
  | c :: cs => (Numeral.readValue (c :: cs)).toOption

/-- The number that an operand stands for, if it stands for one. -/
def coerce? : Operand → Option Value
  | .absent => some 0
  | .number value => some value
  | .text name => numberOfText? name

/-- The number that an operand ends as: zero if it stands for none. -/
def finish (operand : Operand) : Value :=
  operand.coerce?.getD 0

/-- The operand as text; it names a sysvar when the operand is used as an address. -/
def display : Operand → String
  | .absent => ""
  | .number value => Numeral.render value
  | .text name => name

@[simp] theorem coerce?_absent : coerce? .absent = some 0 := rfl

@[simp] theorem coerce?_number (value : Value) : coerce? (.number value) = some value := rfl

@[simp] theorem finish_number (value : Value) : finish (.number value) = value := rfl

end Operand

/-! ## Operators -/

/-- An arithmetic operator. -/
inductive Operator where
  | add
  | sub
  | mult
  | div
deriving DecidableEq, Repr

namespace Operator

/-- All operators. -/
def all : List Operator := [.add, .sub, .mult, .div]

/-- The word for an operator in a script. -/
def keyword : Operator → String
  | .add => "add"
  | .sub => "sub"
  | .mult => "mult"
  | .div => "div"

/-- The operator that a word stands for. -/
def ofKeyword? (word : String) : Option Operator :=
  all.find? fun op => op.keyword == word

/-- Whether two values have no quotient: the divisor is zero, or the least value is divided by
minus one, which gives the one quotient that is too large. -/
def lacksQuotient (x y : Value) : Bool :=
  y == 0 || x == Int64.minValue && y == -1

/-- The quotient rounded toward zero. -/
def quotient? (x y : Value) : Option Value :=
  if lacksQuotient x y then none else some (x / y)

/-- What the quotient rounded toward zero leaves; it has the sign of the dividend. -/
def remainder? (x y : Value) : Option Value :=
  if lacksQuotient x y then none else some (x % y)

/-- The quotient rounded up. It was rounded down if the remainder has the sign of the divisor. -/
def ceilDiv? (x y : Value) : Option Value := do
  let quotient ← quotient? x y
  let remainder ← remainder? x y
  if remainder ≠ 0 ∧ (0 < remainder ↔ 0 < y) then fit? (quotient.toInt + 1) else some quotient

/-- The result on values, if it is a value. -/
def onValues? : Operator → Value → Value → Option Value
  | .add, x, y => fit? (x.toInt + y.toInt)
  | .sub, x, y => fit? (x.toInt - y.toInt)
  | .mult, x, y => fit? (x.toInt * y.toInt)
  | .div, x, y => ceilDiv? x y

/-- The result on operands, zero standing in for a missing one. A division by zero is settled before
the operands are looked at. -/
def apply (op : Operator) (a b : Operand) : Value :=
  if op = .div ∧ b.coerce? = some 0 then 0
  else
    match a.coerce?, b.coerce? with
    | some x, some y => (op.onValues? x y).getD 0
    | _, _ => 0

/-- Keywords and operators correspond. -/
theorem ofKeyword?_eq_some_iff {word : String} {op : Operator} :
    ofKeyword? word = some op ↔ word = op.keyword := by
  constructor
  · intro h
    have hfound := List.find?_some (p := fun op => keyword op == word) h
    exact (beq_iff_eq.mp hfound).symm
  · rintro rfl
    cases op <;> decide

/-- Nothing is divided by zero. -/
theorem ceilDiv?_zero (x : Value) : ceilDiv? x 0 = none := by
  simp [ceilDiv?, quotient?, lacksQuotient]

/-- The early answer to a division by zero changes nothing: the quotient is missing anyway. -/
theorem apply_eq (op : Operator) (a b : Operand) :
    op.apply a b =
      match a.coerce?, b.coerce? with
      | some x, some y => (op.onValues? x y).getD 0
      | _, _ => 0 := by
  unfold apply
  split
  next h =>
    obtain ⟨rfl, hzero⟩ := h
    cases a.coerce? <;> simp [hzero, onValues?, ceilDiv?_zero]
  next => rfl

/-- An operand that is no number on the left makes the result zero. -/
theorem apply_of_coerce?_left_eq_none (op : Operator) {a : Operand} (b : Operand)
    (h : a.coerce? = none) : op.apply a b = 0 := by
  simp [apply_eq, h]

/-- An operand that is no number on the right makes the result zero. -/
theorem apply_of_coerce?_right_eq_none (op : Operator) (a : Operand) {b : Operand}
    (h : b.coerce? = none) : op.apply a b = 0 := by
  cases ha : a.coerce? <;> simp [apply_eq, ha, h]

end Operator

end GenomeScript

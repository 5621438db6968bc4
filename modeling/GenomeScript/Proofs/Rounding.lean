import Mathlib.Algebra.Order.Field.Basic
import Mathlib.Data.Rat.Floor
import GenomeScript.Operator

/-!
# Operators compute exactly

An operator gives the exact result on the integers whenever that is a value, and zero when it is
not; there is no third way, whatever the signs and however close to the limits. For division the
exact result is the rational quotient rounded up. The operator finds it without rationals: it rounds
toward zero and adds one where the remainder has the sign of the divisor.

Adding one is safe, since something remains only if the divisor is at least two in magnitude, and
then the quotient is at most half of the dividend. So of the quotients with a divisor that is not
zero only one is no value, that of the least value and minus one.
-/

namespace GenomeScript.Operator

/-- The exact result on integers. Division gives zero for the divisor zero, and else the least
integer that is not below the rational quotient. -/
def exactResult : Operator → Int → Int → Int
  | .add, x, y => x + y
  | .sub, x, y => x - y
  | .mult, x, y => x * y
  | .div, x, y => if y = 0 then 0 else ⌈(x : ℚ) / y⌉

/-- For a positive divisor the quotient rounded toward zero is one too low where something positive
remains. -/
theorem ceil_div_of_pos {y : Int} (x : Int) (hy : 0 < y) :
    ⌈(x : ℚ) / y⌉ = if 0 < x.tmod y then x.tdiv y + 1 else x.tdiv y := by
  have hparts : y * x.tdiv y + x.tmod y = x := Int.mul_tdiv_add_tmod x y
  have hsmall : (x.tmod y).natAbs < y.natAbs := by
    rw [Int.natAbs_tmod]
    exact Nat.mod_lt _ (by omega)
  have hpos : (0 : ℚ) < y := by exact_mod_cast hy
  have hcast (z : Int) :
      ((z : ℚ) - 1) * y < x ∧ (x : ℚ) ≤ z * y ↔ (z - 1) * y < x ∧ x ≤ z * y := by norm_cast
  rw [Int.ceil_eq_iff, lt_div_iff₀ hpos, div_le_iff₀ hpos, hcast]
  split
  next hremains =>
    rw [Int.sub_mul, Int.add_mul, Int.mul_comm]
    omega
  next hremains =>
    rw [Int.sub_mul, Int.mul_comm]
    omega

/-- Whatever the signs, the quotient rounded toward zero is one too low exactly where something
remains that has the sign of the divisor. -/
theorem ceil_div_eq {x y : Int} (hy : y ≠ 0) :
    ⌈(x : ℚ) / y⌉ =
      if x.tmod y ≠ 0 ∧ (0 < x.tmod y ↔ 0 < y) then x.tdiv y + 1 else x.tdiv y := by
  rcases Int.lt_or_gt_of_ne hy with hneg | hpos
  · -- Changing both signs keeps both quotients and changes the sign of the remainder.
    have hflip : (x : ℚ) / y = ((-x : Int) : ℚ) / ((-y : Int) : ℚ) := by
      rw [Int.cast_neg, Int.cast_neg, neg_div_neg_eq]
    rw [hflip, ceil_div_of_pos (-x) (by omega), Int.neg_tdiv_neg, Int.tmod_neg, Int.neg_tmod]
    exact if_congr (by omega) rfl rfl
  · rw [ceil_div_of_pos x hpos]
    exact if_congr (by omega) rfl rfl

/-- Where something remains, the quotient is at most half of the dividend. -/
theorem natAbs_tdiv_le_half {x y : Int} (hy : y ≠ 0) (hremains : x.tmod y ≠ 0) :
    (x.tdiv y).natAbs ≤ x.natAbs / 2 := by
  have hrest := Int.natAbs_tmod x y
  have htwo : 2 ≤ y.natAbs := by
    by_contra hlow
    have hone : y.natAbs = 1 := by omega
    rw [hone, Nat.mod_one] at hrest
    omega
  rw [Int.natAbs_tdiv]
  exact Nat.div_le_div_left htwo (by omega)

/-- An integer in range is kept, and any other becomes zero. -/
theorem toInt_getD_fit? (n : Int) :
    ((fit? n).getD 0).toInt = if -2 ^ 63 ≤ n ∧ n ≤ 2 ^ 63 - 1 then n else 0 := by
  have hmin := Int64.toInt_minValue
  have hmax := Int64.toInt_maxValue
  cases hfit : fit? n with
  | none =>
    have hout := fit?_eq_none_iff.mp hfit
    rw [if_neg (by omega)]
    rfl
  | some value =>
    obtain rfl := fit?_eq_some_iff.mp hfit
    have hlow := value.minValue_le_toInt
    have hhigh := value.toInt_le
    rw [if_pos (by omega)]
    rfl

/-- Two values lack a quotient in two cases. -/
theorem lacksQuotient_iff {x y : Value} :
    lacksQuotient x y = true ↔ y = 0 ∨ x = Int64.minValue ∧ y = -1 := by
  simp [lacksQuotient]

/-- A value is zero exactly when its integer is. -/
theorem toInt_eq_zero_iff {value : Value} : value.toInt = 0 ↔ value = 0 := by
  rw [← Int64.toInt_zero, Int64.toInt_inj]

/-- A value is positive exactly when its integer is. -/
theorem toInt_pos_iff {value : Value} : 0 < value.toInt ↔ 0 < value := by
  rw [Int64.lt_iff_toInt_lt, Int64.toInt_zero]

/-- Values that have a quotient have that of their integers, and so with the remainder. -/
theorem toInt_div_and_mod {x y : Value} (h : lacksQuotient x y = false) :
    y.toInt ≠ 0 ∧ (x / y).toInt = x.toInt.tdiv y.toInt ∧ (x % y).toInt = x.toInt.tmod y.toInt := by
  have hcases : ¬(y = 0 ∨ x = Int64.minValue ∧ y = -1) := by
    rw [← lacksQuotient_iff, h]
    exact Bool.false_ne_true
  obtain ⟨hzero, hlimit⟩ := not_or.mp hcases
  refine ⟨mt toInt_eq_zero_iff.mp hzero, ?_, Int64.toInt_mod x y⟩
  by_cases hleast : x = Int64.minValue
  · exact Int64.toInt_div_of_ne_right x y fun hminus => hlimit ⟨hleast, hminus⟩
  · exact Int64.toInt_div_of_ne_left x y hleast

/-- Where something remains, one more than the quotient is still a value. -/
theorem toInt_div_add_one_le {x y : Value} (h : lacksQuotient x y = false) (hremains : x % y ≠ 0) :
    (x / y).toInt + 1 ≤ 2 ^ 63 - 1 := by
  obtain ⟨hy, hdiv, hmod⟩ := toInt_div_and_mod h
  have hne : x.toInt.tmod y.toInt ≠ 0 := by
    rw [← hmod]
    exact mt toInt_eq_zero_iff.mp hremains
  have hhalf := natAbs_tdiv_le_half hy hne
  have hmin := Int64.toInt_minValue
  have hmax := Int64.toInt_maxValue
  have hlow := x.minValue_le_toInt
  have hhigh := x.toInt_le
  omega

/-- Values without a quotient are not divided. -/
theorem ceilDiv?_of_lacksQuotient {x y : Value} (h : lacksQuotient x y = true) :
    ceilDiv? x y = none := by
  simp [ceilDiv?, quotient?, h]

/-- Values with a quotient are divided, and the result is the rational quotient rounded up. -/
theorem exists_ceilDiv?_eq_some {x y : Value} (h : lacksQuotient x y = false) :
    ∃ result, ceilDiv? x y = some result ∧ result.toInt = ⌈(x.toInt : ℚ) / y.toInt⌉ := by
  obtain ⟨hy, hdiv, hmod⟩ := toInt_div_and_mod h
  have hchoice : ceilDiv? x y =
      if x % y ≠ 0 ∧ (0 < x % y ↔ 0 < y) then fit? ((x / y).toInt + 1) else some (x / y) := by
    simp [ceilDiv?, quotient?, remainder?, h]
  have hsame : (x.toInt.tmod y.toInt ≠ 0 ∧ (0 < x.toInt.tmod y.toInt ↔ 0 < y.toInt)) ↔
      x % y ≠ 0 ∧ (0 < x % y ↔ 0 < y) := by
    rw [← hmod, Ne, toInt_eq_zero_iff, toInt_pos_iff, toInt_pos_iff]
  rw [hchoice, ceil_div_eq hy, ← hdiv]
  by_cases hraise : x % y ≠ 0 ∧ (0 < x % y ↔ 0 < y)
  · rw [if_pos hraise, if_pos (hsame.mpr hraise)]
    cases hfit : fit? ((x / y).toInt + 1) with
    | some result => exact ⟨result, rfl, fit?_eq_some_iff.mp hfit⟩
    | none =>
      have hout := fit?_eq_none_iff.mp hfit
      have hbound := toInt_div_add_one_le h hraise.1
      have hlow := (x / y).minValue_le_toInt
      have hmax := Int64.toInt_maxValue
      omega
  · rw [if_neg hraise, if_neg (mt hsame.mp hraise)]
    exact ⟨x / y, rfl, rfl⟩

/-- Values are divided exactly when they have a quotient. -/
theorem ceilDiv?_eq_none_iff {x y : Value} : ceilDiv? x y = none ↔ lacksQuotient x y = true := by
  refine ⟨?_, ceilDiv?_of_lacksQuotient⟩
  intro hnone
  by_contra hlacks
  obtain ⟨result, hsome, _⟩ := exists_ceilDiv?_eq_some (Bool.eq_false_iff.mpr hlacks)
  simp [hnone] at hsome

/-- Dividing values gives the exact result if it is a value, and zero if not. -/
theorem ceilDiv?_getD (x y : Value) :
    (ceilDiv? x y).getD 0 = (fit? (exactResult .div x.toInt y.toInt)).getD 0 := by
  by_cases hlacks : lacksQuotient x y = true
  · rw [ceilDiv?_of_lacksQuotient hlacks, exactResult]
    rcases lacksQuotient_iff.mp hlacks with rfl | ⟨rfl, rfl⟩
    · rfl
    · -- The quotient is exact, and one above the greatest value.
      rw [if_neg (by decide), ceil_div_eq (by decide)]
      decide
  · rw [Bool.not_eq_true] at hlacks
    obtain ⟨hy, _⟩ := toInt_div_and_mod hlacks
    obtain ⟨result, hresult, hceil⟩ := exists_ceilDiv?_eq_some hlacks
    rw [hresult, exactResult, if_neg hy, ← hceil, fit?_toInt]

/-- On values each operator gives the exact result if it is a value, and zero if not. -/
theorem onValues?_getD (op : Operator) (x y : Value) :
    (op.onValues? x y).getD 0 = (fit? (op.exactResult x.toInt y.toInt)).getD 0 := by
  cases op with
  | add => rfl
  | sub => rfl
  | mult => rfl
  | div => exact ceilDiv?_getD x y

/-- An operator gives zero when an operand is no number. Otherwise it gives the exact result on the
integers of its operands, or zero when that is out of range. Division by a value that is not zero
fails only where the least value is divided by minus one, and where something remains the quotient
can be raised by one. -/
theorem apply_eq_exactResult (op : Operator) (a b : Operand) :
    (a.coerce? = none ∨ b.coerce? = none → op.apply a b = 0) ∧
      (∀ x y, a.coerce? = some x → b.coerce? = some y →
        (op.apply a b).toInt =
          if -2 ^ 63 ≤ op.exactResult x.toInt y.toInt ∧ op.exactResult x.toInt y.toInt ≤ 2 ^ 63 - 1
          then op.exactResult x.toInt y.toInt else 0) ∧
      (∀ x y, y ≠ 0 → (ceilDiv? x y = none ↔ x.toInt = -2 ^ 63 ∧ y.toInt = -1)) ∧
      ∀ x y quotient remainder, quotient? x y = some quotient → remainder? x y = some remainder →
        remainder ≠ 0 → quotient.toInt + 1 ≤ 2 ^ 63 - 1 := by
  refine ⟨?_, ?_, ?_, ?_⟩
  · intro hnone
    rcases hnone with hleft | hright
    · exact op.apply_of_coerce?_left_eq_none b hleft
    · exact op.apply_of_coerce?_right_eq_none a hright
  · intro x y hx hy
    have happly : op.apply a b = (op.onValues? x y).getD 0 := by simp only [apply_eq, hx, hy]
    rw [happly, onValues?_getD, toInt_getD_fit?]
  · intro x y hy
    have hleast : x.toInt = -2 ^ 63 ↔ x = Int64.minValue := by
      rw [← Int64.toInt_minValue, Int64.toInt_inj]
    have hminus : y.toInt = -1 ↔ y = -1 := by
      rw [← Int64.toInt_inj]
      rfl
    rw [ceilDiv?_eq_none_iff, lacksQuotient_iff, or_iff_right hy, hleast, hminus]
  · intro x y quotient remainder hquotient hremainder hremains
    by_cases hlacks : lacksQuotient x y = true
    · simp [quotient?, hlacks] at hquotient
    · obtain rfl : x / y = quotient := by simpa [quotient?, hlacks] using hquotient
      obtain rfl : x % y = remainder := by simpa [remainder?, hlacks] using hremainder
      exact toInt_div_add_one_le (Bool.eq_false_iff.mpr hlacks) hremains

/-- A numeral between blanks is divided and rounded up, a name is no number even over zero, the
least value cannot be divided by minus one, and three is raised to four where seven is halved with
both signs negative. -/
theorem apply_eq_exactResult_signs :
    (Operator.div.apply (.text " -7 ") (.number 2)).toInt = -3 ∧
      Operator.div.apply (.text "nrg") (.number 0) = 0 ∧
      ceilDiv? Int64.minValue (-1) = none ∧
      quotient? (-7) (-2) = some 3 ∧ remainder? (-7) (-2) = some (-1) ∧
      Int64.toInt 3 + 1 ≤ 2 ^ 63 - 1 := by
  have hquotient : quotient? (-7) (-2) = some 3 := by decide
  have hremainder : remainder? (-7) (-2) = some (-1) := by decide
  obtain ⟨_, hexact, hlimit, hraised⟩ := apply_eq_exactResult .div (.text " -7 ") (.number 2)
  obtain ⟨hname, _⟩ := apply_eq_exactResult .div (.text "nrg") (.number 0)
  refine ⟨?_, hname (.inl (by decide)), (hlimit _ _ (by decide)).mpr (by decide), hquotient,
    hremainder, hraised _ _ _ _ hquotient hremainder (by decide)⟩
  rw [hexact (-7) 2 (by decide) rfl]
  decide +kernel

end GenomeScript.Operator

import GenomeScript.Numeral
import GenomeScript.Proofs.Outcomes

/-!
# Literals

A literal is an optional sign followed by one or more decimal digits, and it stands for the
integer that its digits spell in base ten. Reading accepts exactly the literals whose integer
is a value: leading zeros and a plus sign are allowed, and the limit on the magnitude differs
by sign. A text that begins with a literal whose integer is no value is refused for that, whatever
comes behind it. Writing a value gives one of its literals, so reading undoes writing. A count is
written in digits that spell it.
-/

namespace GenomeScript.Numeral

/-- What stands before the digits of a literal. -/
inductive Sign where
  | absent
  | plus
  | minus
deriving DecidableEq, Repr

/-- The characters of a sign. -/
def Sign.chars : Sign → List Char
  | .absent => []
  | .plus => ['+']
  | .minus => ['-']

/-- The integer with a sign and a magnitude. -/
def Sign.apply : Sign → Nat → Int
  | .minus, n => -n
  | _, n => n

/-- The greatest magnitude that a value with the sign can have. -/
def Sign.limit : Sign → Nat
  | .minus => leastMagnitude
  | _ => greatest

/-- The fault of a magnitude above the limit. -/
def Sign.excess : Sign → Fault
  | .minus => .tooSmall
  | _ => .tooLarge

/-- An optional sign and one or more decimal digits. -/
@[ext] structure Literal where
  sign : Sign
  digits : List Char
  nonempty : digits ≠ []
  decimal : ∀ c ∈ digits, '0' ≤ c ∧ c ≤ '9'

/-- The characters of a literal. -/
def Literal.chars (literal : Literal) : List Char :=
  literal.sign.chars ++ literal.digits

/-- The integer that a literal spells. -/
def Literal.value (literal : Literal) : Int :=
  literal.sign.apply (Nat.ofDigitChars 10 literal.digits 0)

/-- The decimal digits are the characters from zero to nine. -/
theorem isDigit_iff {c : Char} : c.isDigit = true ↔ '0' ≤ c ∧ c ≤ '9' := by
  simp [Char.isDigit, Char.le_def]

/-- No sign is a digit. -/
theorem not_digit_of_sign {c : Char} (h : c = '-' ∨ c = '+') : ¬('0' ≤ c ∧ c ≤ '9') := by
  rcases h with rfl | rfl <;> decide

/-- Further digits never make a magnitude smaller. -/
theorem le_ofDigitChars (cs : List Char) (n : Nat) : n ≤ Nat.ofDigitChars 10 cs n := by
  rw [Nat.ofDigitChars_eq_ofDigitChars_zero]
  have hpos : 1 ≤ 10 ^ cs.length := Nat.one_le_pow _ _ (by omega)
  have hmul : 1 * n ≤ 10 ^ cs.length * n := Nat.mul_le_mul_right n hpos
  omega

/-- Digits are read onto a magnitude exactly when they are digits and the result keeps to the
limit; no earlier magnitude can pass it then. -/
theorem readOnto_eq_ok_iff {limit : Nat} {excess : Fault} {cs : List Char} {start n : Nat}
    (hstart : start ≤ limit) :
    readOnto limit excess start cs = .ok n ↔
      (∀ c ∈ cs, '0' ≤ c ∧ c ≤ '9') ∧ Nat.ofDigitChars 10 cs start = n ∧ n ≤ limit := by
  induction cs generalizing start with
  | nil =>
    simp only [readOnto, Except.ok.injEq, Nat.ofDigitChars_nil]
    constructor
    · intro h
      exact ⟨by simp, h, h ▸ hstart⟩
    · intro h
      exact h.2.1
  | cons c cs ih =>
    rw [readOnto, Nat.ofDigitChars_cons]
    by_cases hc : c.isDigit = true
    · have hdigit := isDigit_iff.mp hc
      simp only [digit?, if_pos hc]
      by_cases hfits : 10 * start + (c.toNat - '0'.toNat) ≤ limit
      · rw [if_pos hfits, ih hfits]
        simp [hdigit]
      · rw [if_neg hfits]
        have hgrow := le_ofDigitChars cs (10 * start + (c.toNat - '0'.toNat))
        constructor
        · intro h
          cases h
        · intro h
          omega
    · simp only [digit?, if_neg hc]
      constructor
      · intro h
        cases h
      · intro h
        exact absurd (isDigit_iff.mpr (h.1 c (by simp))) hc

/-- One or more digits are read exactly when they spell a magnitude within the limit. -/
theorem readDigits_eq_ok_iff {limit : Nat} {excess : Fault} {cs : List Char} {n : Nat} :
    readDigits limit excess cs = .ok n ↔
      cs ≠ [] ∧ (∀ c ∈ cs, '0' ≤ c ∧ c ≤ '9') ∧ Nat.ofDigitChars 10 cs 0 = n ∧ n ≤ limit := by
  cases cs with
  | nil => simp [readDigits]
  | cons c cs => rw [readDigits, readOnto_eq_ok_iff (Nat.zero_le limit)]; simp

/-- A text that does not begin with a sign. -/
def Unsigned (cs : List Char) : Prop :=
  ∀ c, cs.head? = some c → ¬(c = '-' ∨ c = '+')

/-- Digits begin with no sign. -/
theorem unsigned_of_digits {cs : List Char} (h : ∀ c ∈ cs, '0' ≤ c ∧ c ≤ '9') : Unsigned cs := by
  intro c hc hsign
  exact not_digit_of_sign hsign (h c (List.mem_of_head? hc))

/-- The sign of a text and what follows the sign are determined by the text. -/
theorem sign_append_inj {s t : Sign} {xs ys : List Char} (hxs : s = .absent → Unsigned xs)
    (hys : t = .absent → Unsigned ys) (h : s.chars ++ xs = t.chars ++ ys) : s = t ∧ xs = ys := by
  cases s <;> cases t <;> simp only [Sign.chars, List.nil_append, List.cons_append, List.cons.injEq] at h
  case absent.absent => exact ⟨rfl, h⟩
  case plus.plus => exact ⟨rfl, h.2⟩
  case minus.minus => exact ⟨rfl, h.2⟩
  case absent.plus => exact absurd (Or.inr rfl) (hxs rfl '+' (by simp [h]))
  case absent.minus => exact absurd (Or.inl rfl) (hxs rfl '-' (by simp [h]))
  case plus.absent => exact absurd (Or.inr rfl) (hys rfl '+' (by simp [← h]))
  case minus.absent => exact absurd (Or.inl rfl) (hys rfl '-' (by simp [← h]))
  case plus.minus => exact absurd h.1 (by decide)
  case minus.plus => exact absurd h.1 (by decide)

/-- A text that is not empty divides into a sign and the rest, which is read within the limit of
that sign. -/
theorem exists_sign {cs : List Char} (h : cs ≠ []) :
    ∃ sign rest, cs = Sign.chars sign ++ rest ∧ (sign = .absent → Unsigned rest) ∧
      readValue cs = (readDigits sign.limit sign.excess rest).map fun n => Int64.ofInt (sign.apply n) := by
  cases cs with
  | nil => exact absurd rfl h
  | cons c cs =>
    by_cases hminus : c = '-'
    · subst hminus
      exact ⟨.minus, cs, rfl, by simp, rfl⟩
    · by_cases hplus : c = '+'
      · subst hplus
        exact ⟨.plus, cs, rfl, by simp, rfl⟩
      · have hunsigned : Unsigned (c :: cs) := by
          intro d hd hsign
          rw [List.head?_cons, Option.some.injEq] at hd
          subst hd
          exact hsign.elim hminus hplus
        refine ⟨.absent, c :: cs, rfl, fun _ => hunsigned, ?_⟩
        rw [readValue]
        · rfl
        · simp
        · simp [hminus]
        · simp [hplus]

/-- A sign and a magnitude within its limit make a value. -/
theorem toInt_ofInt_apply {sign : Sign} {n : Nat} (h : n ≤ sign.limit) :
    (Int64.ofInt (sign.apply n)).toInt = sign.apply n := by
  have hmin := Int64.toInt_minValue
  have hmax := Int64.toInt_maxValue
  apply Int64.toInt_ofInt_of_le
  · cases sign <;> simp only [Sign.apply, Sign.limit, leastMagnitude, greatest] at h ⊢ <;> omega
  · cases sign <;> simp only [Sign.apply, Sign.limit, leastMagnitude, greatest] at h ⊢ <;> omega

/-- The magnitude of a value keeps to the limit of its sign. -/
theorem le_limit_of_apply_eq {sign : Sign} {n : Nat} {v : Value} (h : sign.apply n = v.toInt) :
    n ≤ sign.limit := by
  have hmin := Int64.toInt_minValue
  have hmax := Int64.toInt_maxValue
  have hlow := v.minValue_le_toInt
  have hhigh := v.toInt_le
  cases sign <;> simp only [Sign.apply, Sign.limit, leastMagnitude, greatest] at h ⊢ <;> omega

/-- A literal is determined by its characters. -/
theorem Literal.chars_injective : Function.Injective Literal.chars := by
  intro a b h
  have hparts := sign_append_inj (fun _ => unsigned_of_digits a.decimal)
    (fun _ => unsigned_of_digits b.decimal) h
  exact Literal.ext hparts.1 hparts.2

/-- Reading accepts exactly the literals whose integer is a value, and gives that value. -/
theorem readValue_eq_ok_iff {cs : List Char} {v : Value} :
    readValue cs = .ok v ↔ ∃ literal : Literal, literal.chars = cs ∧ literal.value = v.toInt := by
  constructor
  · intro h
    have hne : cs ≠ [] := by
      intro hnil
      rw [hnil] at h
      cases h
    obtain ⟨sign, rest, rfl, _, hread⟩ := exists_sign hne
    rw [hread] at h
    obtain ⟨n, hn, rfl⟩ := Except.map_eq_ok_iff.mp h
    obtain ⟨hrest, hdigits, hvalue, hlimit⟩ := readDigits_eq_ok_iff.mp hn
    refine ⟨⟨sign, rest, hrest, hdigits⟩, rfl, ?_⟩
    rw [Literal.value, hvalue, toInt_ofInt_apply hlimit]
  · intro h
    obtain ⟨literal, rfl, hvalue⟩ := h
    have hne : literal.chars ≠ [] := by simp [Literal.chars, literal.nonempty]
    obtain ⟨sign, rest, hchars, hunsigned, hread⟩ := exists_sign hne
    obtain ⟨rfl, rfl⟩ := sign_append_inj (fun _ => unsigned_of_digits literal.decimal) hunsigned hchars
    rw [hread, Except.map_eq_ok_iff]
    have hlimit := le_limit_of_apply_eq hvalue
    refine ⟨_, readDigits_eq_ok_iff.mpr ⟨literal.nonempty, literal.decimal, rfl, hlimit⟩, ?_⟩
    apply Int64.toInt_inj.mp
    rw [toInt_ofInt_apply hlimit]
    exact hvalue

/-- A literal whose integer is no value. -/
def Literal.Overflows (literal : Literal) : Prop :=
  literal.value < -leastMagnitude ∨ greatest < literal.value

/-- A literal overflows when its magnitude passes the limit of its sign. -/
theorem Literal.overflows_iff {literal : Literal} :
    literal.Overflows ↔ literal.sign.limit < Nat.ofDigitChars 10 literal.digits 0 := by
  unfold Overflows Literal.value
  cases literal.sign <;> simp only [Sign.apply, Sign.limit, leastMagnitude, greatest] <;> omega

/-- The range of values, from `-2 ^ 63` to `2 ^ 63 - 1`. -/
def InRange (n : Int) : Prop :=
  -9223372036854775808 ≤ n ∧ n ≤ 9223372036854775807

/-- The integers of values are those in range. -/
theorem exists_toInt_eq_iff {n : Int} : (∃ value : Value, value.toInt = n) ↔ InRange n := by
  have hmin : Int64.minValue.toInt = -9223372036854775808 := Int64.toInt_minValue
  have hmax : Int64.maxValue.toInt = 9223372036854775807 := Int64.toInt_maxValue
  unfold InRange
  constructor
  · rintro ⟨value, rfl⟩
    exact ⟨hmin ▸ value.minValue_le_toInt, hmax ▸ value.toInt_le⟩
  · intro ⟨hlow, hhigh⟩
    exact ⟨Int64.ofInt n, Int64.toInt_ofInt_of_le hlow (Int.lt_add_one_of_le hhigh)⟩

/-- A literal overflows when its integer is out of range. -/
theorem Literal.overflows_iff_not_inRange {literal : Literal} :
    literal.Overflows ↔ ¬InRange literal.value := by
  unfold Overflows InRange leastMagnitude greatest
  omega

/-- Reading digits onto a magnitude goes over the limit exactly when some of the first digits spell
a magnitude above it, whatever comes behind them. -/
theorem readOnto_eq_error_excess_iff {limit : Nat} {excess : Fault} {cs : List Char} {start : Nat}
    (hexcess : excess ≠ .invalidDigit) (hstart : start ≤ limit) :
    readOnto limit excess start cs = .error excess ↔
      ∃ digits, digits <+: cs ∧ (∀ c ∈ digits, '0' ≤ c ∧ c ≤ '9') ∧
        limit < Nat.ofDigitChars 10 digits start := by
  induction cs generalizing start with
  | nil =>
    refine iff_of_false (fun h => nomatch h) ?_
    intro ⟨digits, hopens, _, hover⟩
    rw [List.prefix_nil.mp hopens, Nat.ofDigitChars_nil] at hover
    omega
  | cons c cs ih =>
    rw [readOnto]
    by_cases hc : c.isDigit = true
    · have hdigit := isDigit_iff.mp hc
      simp only [digit?, if_pos hc]
      by_cases hfits : 10 * start + (c.toNat - '0'.toNat) ≤ limit
      · rw [if_pos hfits, ih hfits]
        constructor
        · intro ⟨digits, hopens, hdigits, hover⟩
          refine ⟨c :: digits, (List.prefix_cons_inj c).mpr hopens, ?_, ?_⟩
          · exact List.forall_mem_cons.mpr ⟨hdigit, hdigits⟩
          · rwa [Nat.ofDigitChars_cons]
        · intro ⟨digits, hopens, hdigits, hover⟩
          cases digits with
          | nil =>
            rw [Nat.ofDigitChars_nil] at hover
            omega
          | cons d digits =>
            obtain ⟨rfl, hlater⟩ := List.cons_prefix_cons.mp hopens
            rw [Nat.ofDigitChars_cons] at hover
            exact ⟨digits, hlater, fun e he => hdigits e (List.mem_cons_of_mem _ he), hover⟩
      · rw [if_neg hfits]
        refine iff_of_true rfl ⟨[c], by simp, by simpa using hdigit, ?_⟩
        rw [Nat.ofDigitChars_cons, Nat.ofDigitChars_nil]
        omega
    · simp only [digit?, if_neg hc]
      refine iff_of_false (fun h => hexcess (Except.error.inj h).symm) ?_
      intro ⟨digits, hopens, hdigits, hover⟩
      cases digits with
      | nil =>
        rw [Nat.ofDigitChars_nil] at hover
        omega
      | cons d digits =>
        obtain ⟨rfl, _⟩ := List.cons_prefix_cons.mp hopens
        exact hc (isDigit_iff.mpr (hdigits d List.mem_cons_self))

/-- One or more digits go over the limit exactly when some of the first ones spell a magnitude above
it. -/
theorem readDigits_eq_error_excess_iff {limit : Nat} {excess : Fault} {cs : List Char}
    (hexcess : excess ≠ .invalidDigit) :
    readDigits limit excess cs = .error excess ↔
      ∃ digits, digits <+: cs ∧ digits ≠ [] ∧ (∀ c ∈ digits, '0' ≤ c ∧ c ≤ '9') ∧
        limit < Nat.ofDigitChars 10 digits 0 := by
  cases cs with
  | nil =>
    refine iff_of_false (fun h => hexcess (Except.error.inj h).symm) ?_
    intro ⟨digits, hopens, hne, _⟩
    exact hne (List.prefix_nil.mp hopens)
  | cons c cs =>
    rw [readDigits, readOnto_eq_error_excess_iff hexcess (Nat.zero_le limit)]
    constructor
    · intro ⟨digits, hopens, hdigits, hover⟩
      refine ⟨digits, hopens, ?_, hdigits, hover⟩
      intro hnil
      rw [hnil, Nat.ofDigitChars_nil] at hover
      omega
    · intro ⟨digits, hopens, _, hdigits, hover⟩
      exact ⟨digits, hopens, hdigits, hover⟩

/-- Reading digits onto a magnitude fails for a character that is no digit, or for the excess. -/
theorem fault_of_readOnto {limit : Nat} {excess fault : Fault} {cs : List Char} {start : Nat}
    (h : readOnto limit excess start cs = .error fault) : fault = .invalidDigit ∨ fault = excess := by
  induction cs generalizing start with
  | nil => cases h
  | cons c cs ih =>
    rw [readOnto] at h
    split at h
    · exact .inl (Except.error.inj h).symm
    · split at h
      · exact ih h
      · exact .inr (Except.error.inj h).symm

/-- One or more digits have no other faults. -/
theorem fault_of_readDigits {limit : Nat} {excess fault : Fault} {cs : List Char}
    (h : readDigits limit excess cs = .error fault) : fault = .invalidDigit ∨ fault = excess := by
  cases cs with
  | nil => exact .inl (Except.error.inj h).symm
  | cons c cs => exact fault_of_readOnto h

/-- A fault of a numeral that spells too great a magnitude. -/
def Fault.IsExcess (fault : Fault) : Prop :=
  fault = .tooLarge ∨ fault = .tooSmall

/-- The excess of a sign is one, and no digit is missing there. -/
theorem Sign.excess_cases (sign : Sign) : sign.excess.IsExcess ∧ sign.excess ≠ .invalidDigit := by
  cases sign <;> simp [Sign.excess, Fault.IsExcess]

/-- A text goes over the range of values exactly when it begins with a literal that overflows,
whatever comes behind it. -/
theorem exists_readValue_excess_iff {cs : List Char} :
    (∃ fault, readValue cs = .error fault ∧ fault.IsExcess) ↔
      ∃ literal : Literal, literal.chars <+: cs ∧ literal.Overflows := by
  by_cases hne : cs = []
  · subst hne
    constructor
    · intro ⟨fault, hfault, hexcess⟩
      rw [← Except.error.inj hfault] at hexcess
      simp [Fault.IsExcess] at hexcess
    · intro ⟨literal, hopens, _⟩
      have hnil := List.prefix_nil.mp hopens
      simp [Literal.chars, literal.nonempty] at hnil
  · obtain ⟨sign, rest, rfl, hunsigned, hread⟩ := exists_sign hne
    obtain ⟨hexcess, hvalid⟩ := sign.excess_cases
    rw [hread]
    constructor
    · intro ⟨fault, hfault, hover⟩
      rw [Except.map_eq_error_iff] at hfault
      have hlimit : readDigits sign.limit sign.excess rest = .error sign.excess := by
        cases fault_of_readDigits hfault with
        | inl hdigit => simp [hdigit, Fault.IsExcess] at hover
        | inr heq => rwa [heq] at hfault
      obtain ⟨digits, hopens, hdigits, hdecimal, hmagnitude⟩ :=
        (readDigits_eq_error_excess_iff hvalid).mp hlimit
      exact ⟨⟨sign, digits, hdigits, hdecimal⟩, (List.prefix_append_right_inj _).mpr hopens,
        Literal.overflows_iff.mpr hmagnitude⟩
    · intro ⟨literal, ⟨tail, hparts⟩, hover⟩
      -- The sign of the literal is the sign of the text, since a digit follows it in both.
      have hstarts : literal.sign = .absent → Unsigned (literal.digits ++ tail) := by
        intro _ c hc
        rw [List.head?_append, List.head?_eq_some_head literal.nonempty, Option.some_or] at hc
        exact unsigned_of_digits literal.decimal c
          ((List.head?_eq_some_head literal.nonempty).trans hc)
      rw [Literal.chars, List.append_assoc] at hparts
      obtain ⟨hsign, hrest⟩ := sign_append_inj hstarts hunsigned hparts
      rw [Literal.overflows_iff, hsign] at hover
      refine ⟨sign.excess, Except.map_eq_error_iff.mpr ?_, hexcess⟩
      exact (readDigits_eq_error_excess_iff hvalid).mpr
        ⟨literal.digits, ⟨tail, hrest⟩, literal.nonempty, literal.decimal, hover⟩

/-- A literal that does not overflow is read as the value that it spells. -/
theorem exists_readValue_eq_ok {literal : Literal} (h : ¬literal.Overflows) :
    ∃ v, readValue literal.chars = .ok v := by
  have hlimit := Nat.le_of_not_lt (mt Literal.overflows_iff.mpr h)
  exact ⟨_, readValue_eq_ok_iff.mpr ⟨literal, rfl, (toInt_ofInt_apply hlimit).symm⟩⟩

/-- The digits written for a natural number are digits. -/
theorem decimal_digits (n : Nat) : ∀ c ∈ digits n, '0' ≤ c ∧ c ≤ '9' := by
  intro c hc
  exact isDigit_iff.mp (Nat.isDigit_of_mem_toDigits (by omega) (by omega) hc)

/-- The literal that is written for an integer. -/
def Literal.ofInt (n : Int) : Literal where
  sign := if n < 0 then .minus else .absent
  digits := Numeral.digits n.natAbs
  nonempty := Nat.toDigits_ne_nil
  decimal := decimal_digits n.natAbs

/-- The literal of an integer has the characters that are written for it. -/
theorem Literal.chars_ofInt (n : Int) : (Literal.ofInt n).chars = write n := by
  unfold Literal.chars Literal.ofInt write
  by_cases h : n < 0 <;> simp [h, Sign.chars]

/-- The literal of an integer spells that integer. -/
theorem Literal.value_ofInt (n : Int) : (Literal.ofInt n).value = n := by
  have hdigits : Nat.ofDigitChars 10 (Numeral.digits n.natAbs) 0 = n.natAbs :=
    Nat.ofDigitChars_ten_toDigits
  unfold Literal.value Literal.ofInt
  by_cases h : n < 0
  · simp only [if_pos h, hdigits, Sign.apply]
    omega
  · simp only [if_neg h, hdigits, Sign.apply]
    omega

/-- A text of decimal digits, without a sign, that spells a number. -/
def Counts (text : String) (n : Nat) : Prop :=
  ∃ literal : Literal, literal.sign = .absent ∧ literal.chars = text.toList ∧ literal.value = n

/-- The text of a count spells the count. -/
theorem counts_renderCount (n : Nat) : Counts (renderCount n) n := by
  have hsign : ¬(n : Int) < 0 := Int.not_lt.mpr (Int.natCast_nonneg n)
  have habsent : (Literal.ofInt n).sign = .absent := by rw [Literal.ofInt, if_neg hsign]
  refine ⟨.ofInt n, habsent, ?_, Literal.value_ofInt n⟩
  rw [Literal.chars_ofInt, write, if_neg hsign, Int.natAbs_natCast, renderCount, String.toList_ofList]

/-- Reading undoes writing, from the least value to the greatest. -/
theorem readValue_render (v : Value) : readValue (render v).toList = .ok v := by
  refine readValue_eq_ok_iff.mpr ⟨Literal.ofInt v.toInt, ?_, Literal.value_ofInt v.toInt⟩
  rw [Literal.chars_ofInt, render, String.toList_ofList]

end GenomeScript.Numeral

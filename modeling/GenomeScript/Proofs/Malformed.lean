import GenomeScript.Proofs.Layout

/-!
# Words that do not fit their role

The first character of a word settles its role, and the rest of the word may not fit it: a number
that is no literal or whose integer is no value, a read or an address that names nothing, an operator
that is not known. Every token that has a place in an expression is malformed in one of these ways,
or it is a leaf, an operator or `store`; and a malformed token is refused whatever stands on the
stack.
-/

namespace GenomeScript

open Grammar

namespace Token

open Numeral (Literal InRange)

/-- A word that does not fit the role of its token, with the fault that says so. A number is too big
when some literal at its beginning overflows, whatever follows that literal. -/
inductive Malformed (token : Token) : Fault → Prop
  | tooBig {literal : Numeral.Literal} (role : token.role = .number)
      (opens : literal.chars <+: token.text.toList) (overflows : literal.Overflows) :
      Malformed token .numberTooBig
  | number (role : token.role = .number)
      (unspelled : ∀ literal : Numeral.Literal, literal.chars ≠ token.text.toList)
      (fits : ∀ literal : Numeral.Literal, literal.chars <+: token.text.toList →
        ¬literal.Overflows) : Malformed token .malformedNumber
  | read (role : token.role = .read) (unnamed : ∀ name : Name, token.text ≠ (Leaf.read name).word) :
      Malformed token .malformedRead
  | address (role : token.role = .address)
      (unnamed : ∀ name : Name, token.text ≠ (Leaf.address name).word) :
      Malformed token .malformedAddress
  | operator (role : token.role = .operator)
      (unknown : ∀ op : Operator, token.text ≠ operatorWord op) : Malformed token .unknownOperator

/-- A number is too big exactly when it begins with a literal that overflows. -/
theorem number_eq_tooBig_iff {token : Token} :
    token.number = .error (.blame .numberTooBig token) ↔
      ∃ literal : Numeral.Literal, literal.chars <+: token.text.toList ∧ literal.Overflows := by
  rw [← Numeral.exists_readValue_excess_iff, number]
  cases Numeral.readValue token.text.toList with
  | ok value => simp [Except.mapError]
  | error fault => cases fault <;> simp [Except.mapError, numberFault, Numeral.Fault.IsExcess]

/-- A number that is no literal, and begins with none that overflows, is malformed. -/
theorem number_of_unspelled {token : Token}
    (hunspelled : ∀ literal : Numeral.Literal, literal.chars ≠ token.text.toList)
    (hfits : ∀ literal : Numeral.Literal, literal.chars <+: token.text.toList →
      ¬literal.Overflows) : token.number = .error (.blame .malformedNumber token) := by
  cases hread : Numeral.readValue token.text.toList with
  | ok value =>
    obtain ⟨literal, hchars, _⟩ := Numeral.readValue_eq_ok_iff.mp hread
    exact absurd hchars (hunspelled literal)
  | error fault =>
    have hfault : numberFault fault = .malformedNumber := by
      have hexcess : ¬fault.IsExcess := by
        intro hexcess
        obtain ⟨literal, hopens, hover⟩ :=
          Numeral.exists_readValue_excess_iff.mp ⟨fault, hread, hexcess⟩
        exact hfits literal hopens hover
      cases fault with
      | empty => rfl
      | invalidDigit => rfl
      | tooLarge => exact absurd (.inl rfl) hexcess
      | tooSmall => exact absurd (.inr rfl) hexcess
    rw [number, hread, ← hfault]
    rfl

/-- A number that is a literal of an integer in range is read as that integer. -/
theorem exists_number_eq_ok {token : Token} {literal : Numeral.Literal}
    (hchars : literal.chars = token.text.toList) (hrange : Numeral.InRange literal.value) :
    ∃ value, token.number = .ok value ∧ value.toInt = literal.value := by
  obtain ⟨value, hvalue⟩ := Numeral.exists_toInt_eq_iff.mpr hrange
  have hread := Numeral.readValue_eq_ok_iff.mpr ⟨literal, hchars, hvalue.symm⟩
  exact ⟨value, Except.mapError_eq_ok_iff.mpr hread, hvalue⟩

/-- Reading a token as a number gives an integer exactly when the text is a literal of that integer
and the integer is in range. It fails as too big exactly when some literal at the beginning of the
text is out of range, whatever follows that literal. In every other case the number is malformed. -/
theorem number_outcome (token : Token) :
    (∀ n, (∃ value, token.number = .ok value ∧ value.toInt = n) ↔
      ∃ literal : Literal, literal.chars = token.text.toList ∧ literal.value = n ∧ InRange n) ∧
    (token.number = .error (.blame .numberTooBig token) ↔
      ∃ literal : Literal, literal.chars <+: token.text.toList ∧ ¬InRange literal.value) ∧
    (token.number = .error (.blame .malformedNumber token) ↔
      (¬∃ literal : Literal, literal.chars = token.text.toList ∧ InRange literal.value) ∧
        ¬∃ literal : Literal, literal.chars <+: token.text.toList ∧ ¬InRange literal.value) := by
  have htooBig : token.number = .error (.blame .numberTooBig token) ↔
      ∃ literal : Literal, literal.chars <+: token.text.toList ∧ ¬InRange literal.value := by
    simp only [number_eq_tooBig_iff, Literal.overflows_iff_not_inRange]
  refine ⟨?_, htooBig, ?_⟩
  · intro n
    constructor
    · intro ⟨value, hread, hvalue⟩
      obtain ⟨literal, hchars, hspelled⟩ :=
        Numeral.readValue_eq_ok_iff.mp (Except.mapError_eq_ok_iff.mp hread)
      exact ⟨literal, hchars, hspelled.trans hvalue, Numeral.exists_toInt_eq_iff.mp ⟨value, hvalue⟩⟩
    · intro ⟨literal, hchars, hspelled, hrange⟩
      subst hspelled
      exact exists_number_eq_ok hchars hrange
  · constructor
    · intro hmalformed
      constructor
      · intro ⟨literal, hchars, hrange⟩
        obtain ⟨value, hread, _⟩ := exists_number_eq_ok hchars hrange
        simp [hmalformed] at hread
      · intro hover
        have hread := htooBig.mpr hover
        simp [hmalformed] at hread
    · intro ⟨hspelled, hfits⟩
      have hrange : ∀ literal : Literal, literal.chars <+: token.text.toList → InRange literal.value := by
        intro literal hopens
        by_contra hover
        exact hfits ⟨literal, hopens, hover⟩
      refine number_of_unspelled ?_ ?_
      · intro literal hchars
        exact hspelled ⟨literal, hchars, hrange literal (hchars ▸ List.prefix_rfl)⟩
      · intro literal hopens hover
        exact Literal.overflows_iff_not_inRange.mp hover (hrange literal hopens)

/-- The limits differ by sign and zeros in front do not count. A letter behind the greatest value makes
the number malformed, and behind one more digit it comes too late. -/
example :
    number { text := "-009223372036854775808", line := 1 } = .ok Int64.minValue ∧
      number { text := "9223372036854775807a", line := 1 } =
        .error (.blame .malformedNumber { text := "9223372036854775807a", line := 1 }) ∧
      number { text := "92233720368547758070a", line := 1 } =
        .error (.blame .numberTooBig { text := "92233720368547758070a", line := 1 }) := by decide +kernel

/-- Characters that are no name are no identifier. -/
theorem identifierOr_of_unnamed {failure : Failure} {cs : List Char}
    (h : ∀ name : Name, name.chars ≠ cs) : identifierOr failure cs = .error failure := by
  have hrefused : ¬Identifier.accepts cs = true := by
    intro haccepts
    obtain ⟨name, hname⟩ := accepts_iff.mp haccepts
    exact h name hname
  rw [identifierOr, if_neg hrefused]

/-- A read that names nothing is malformed. -/
theorem read_of_unnamed {token : Token} (h : ∀ name : Name, token.text ≠ (Leaf.read name).word) :
    token.read = .error (.blame .malformedRead token) := by
  unfold read
  split
  · next cs hcs =>
    apply identifierOr_of_unnamed
    intro name hname
    rw [← hname] at hcs
    exact h name (Leaf.eq_word_iff.mpr hcs)
  · rfl

/-- An address that names nothing is malformed. -/
theorem address_of_unnamed {token : Token}
    (h : ∀ name : Name, token.text ≠ (Leaf.address name).word) :
    token.address = .error (.blame .malformedAddress token) := by
  unfold address
  split
  · next cs hcs =>
    apply identifierOr_of_unnamed
    intro name hname
    rw [← hname] at hcs
    exact h name (Leaf.eq_word_iff.mpr hcs)
  · rfl

/-- A word that is that of no operator is unknown. -/
theorem operator_of_unknown {token : Token} (h : ∀ op : Operator, token.text ≠ operatorWord op) :
    token.operator = .error (.blame .unknownOperator token) := by
  unfold operator
  cases hop : Operator.ofKeyword? token.text with
  | none => rfl
  | some op => exact absurd (Operator.ofKeyword?_eq_some_iff.mp hop) (keyword_eq_operatorWord op ▸ h op)

/-- A token that has a place in an expression is malformed, or it is a leaf, an operator or
`store`. -/
theorem malformed_or_word {token : Token} (h : token.Continues) :
    (∃ fault, token.Malformed fault) ∨ (∃ leaf : Leaf, token.text = leaf.word) ∨
      (∃ op : Operator, token.text = operatorWord op) ∨ token.text = Keyword.store := by
  cases hrole : token.role with
  | delimiter => exact absurd hrole h.1
  | foreign => exact absurd hrole h.2
  | store => exact .inr (.inr (.inr (Role.of_eq_store_iff.mp hrole)))
  | number =>
    by_cases hover : ∃ literal : Numeral.Literal,
        literal.chars <+: token.text.toList ∧ literal.Overflows
    · obtain ⟨literal, hopens, hover⟩ := hover
      exact .inl ⟨_, .tooBig hrole hopens hover⟩
    · have hfits : ∀ literal : Numeral.Literal, literal.chars <+: token.text.toList →
          ¬literal.Overflows := fun literal hopens hlarge => hover ⟨literal, hopens, hlarge⟩
      by_cases hspelled : ∃ literal : Numeral.Literal, literal.chars = token.text.toList
      · obtain ⟨literal, hchars⟩ := hspelled
        obtain ⟨value, hvalue⟩ := Numeral.exists_readValue_eq_ok
          (hfits literal (hchars ▸ List.prefix_rfl))
        rw [hchars] at hvalue
        obtain ⟨literal, spelled, hword⟩ := number_eq_ok_iff.mp (Except.mapError_eq_ok_iff.mpr hvalue)
        exact .inr (.inl ⟨_, hword⟩)
      · exact .inl ⟨_, .number hrole (not_exists.mp hspelled) hfits⟩
  | read =>
    by_cases hname : ∃ name : Name, token.text = (Leaf.read name).word
    · obtain ⟨name, hword⟩ := hname
      exact .inr (.inl ⟨_, hword⟩)
    · exact .inl ⟨_, .read hrole (not_exists.mp hname)⟩
  | address =>
    by_cases hname : ∃ name : Name, token.text = (Leaf.address name).word
    · obtain ⟨name, hword⟩ := hname
      exact .inr (.inl ⟨_, hword⟩)
    · exact .inl ⟨_, .address hrole (not_exists.mp hname)⟩
  | operator =>
    by_cases hop : ∃ op : Operator, token.text = operatorWord op
    · exact .inr (.inr (.inl hop))
    · exact .inl ⟨_, .operator hrole (not_exists.mp hop)⟩

end Token

namespace Stack

/-- A malformed token is refused, whatever is on the stack. -/
theorem place_of_malformed (stack : Stack) {token : Token} {fault : Fault}
    (h : token.Malformed fault) : stack.place token = .error (.blame fault token) := by
  unfold place
  cases h with
  | tooBig hrole hopens hover =>
    simp only [hrole, Except.map_eq_error_iff]
    exact Token.number_eq_tooBig_iff.mpr ⟨_, hopens, hover⟩
  | number hrole hunspelled hfits =>
    simp only [hrole, Except.map_eq_error_iff]
    exact Token.number_of_unspelled hunspelled hfits
  | read hrole hunnamed =>
    simp only [hrole, Except.map_eq_error_iff]
    exact Token.read_of_unnamed hunnamed
  | address hrole hunnamed =>
    simp only [hrole, Except.map_eq_error_iff]
    exact Token.address_of_unnamed hunnamed
  | operator hrole hunknown =>
    simp only [hrole, Token.operator_of_unknown hunknown]
    rfl

/-- A leaf is not malformed: it can be placed. -/
theorem not_malformed_of_leaf {token : Token} {leaf : Leaf} (h : token.text = leaf.word)
    {fault : Fault} : ¬token.Malformed fault := by
  intro hmalformed
  have hplace := place_of_malformed [] hmalformed
  rw [place_of_leaf [] h] at hplace
  cases hplace

/-- A token that combines is not malformed: on an empty stack it misses its operands. -/
theorem not_malformed_of_combine {token : Token} {join : Command → Command → Command}
    (h : ∀ stack : Stack, stack.place token = combine token join stack) {fault : Fault} :
    ¬token.Malformed fault := by
  intro hmalformed
  have hplace := place_of_malformed [] hmalformed
  rw [h] at hplace
  have hfault : Fault.missingOperands = fault := congrArg Failure.fault (Except.error.inj hplace)
  subst hfault
  cases hmalformed

end Stack

end GenomeScript

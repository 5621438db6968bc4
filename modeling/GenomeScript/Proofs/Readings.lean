import GenomeScript.Proofs.Balance

/-!
# Readings and roles

There are four ways to read a single token: as a number, as a read, as an address and as an operator.
Each of them looks at the whole text. Which of them is tried is settled before that by the role of the
token, and the role is judged by the keywords and the first character alone. This turns nothing away.
A text that some reading accepts is a leaf or the word of an operator, and these have the role of that
reading; so no text is accepted by two readings, or by one whose turn never comes. A token of an
expression that is refused as malformed would have been refused by the other readings too.
-/

namespace GenomeScript

open Grammar

/-- A way to read a single token. -/
inductive Reading where
  | number
  | read
  | address
  | operator
deriving DecidableEq, Repr

/-- The reading that is tried on tokens of a role. -/
def Role.reading? : Role → Option Reading
  | .number => some .number
  | .read => some .read
  | .address => some .address
  | .operator => some .operator
  | _ => none

namespace Reading

/-- The role of the tokens that a reading is tried on. -/
def role : Reading → Role
  | .number => .number
  | .read => .read
  | .address => .address
  | .operator => .operator

/-- Whether a reading accepts a token. -/
def accepts : Reading → Token → Bool
  | .number, token => token.number.isOk
  | .read, token => token.read.isOk
  | .address, token => token.address.isOk
  | .operator, token => token.operator.isOk

/-- The reading that is tried on its own role is the reading itself. -/
theorem reading?_role (reading : Reading) : reading.role.reading? = some reading := by
  cases reading <;> rfl

/-- Different readings are tried on different roles. -/
theorem role_injective : Function.Injective role := by
  intro first second h
  have hfirst := first.reading?_role
  rw [h, second.reading?_role] at hfirst
  exact (Option.some.inj hfirst).symm

/-- A token that is accepted is a leaf of the same role, or an operator that is read as one. -/
theorem word_of_accepts {reading : Reading} {token : Token} (h : reading.accepts token = true) :
    (∃ leaf : Leaf, token.text = leaf.word ∧ leaf.role = reading.role) ∨
      ∃ op : Operator, token.text = operatorWord op ∧ reading = .operator := by
  cases reading with
  | number =>
    obtain ⟨value, hread⟩ := Except.isOk_eq_true_iff.mp h
    obtain ⟨literal, spelled, hword⟩ := Token.number_eq_ok_iff.mp hread
    exact .inl ⟨.number literal value spelled, hword, rfl⟩
  | read =>
    obtain ⟨text, hread⟩ := Except.isOk_eq_true_iff.mp h
    obtain ⟨name, hword, _⟩ := Token.read_eq_ok_iff.mp hread
    exact .inl ⟨.read name, hword, rfl⟩
  | address =>
    obtain ⟨text, hread⟩ := Except.isOk_eq_true_iff.mp h
    obtain ⟨name, hword, _⟩ := Token.address_eq_ok_iff.mp hread
    exact .inl ⟨.address name, hword, rfl⟩
  | operator =>
    obtain ⟨op, hread⟩ := Except.isOk_eq_true_iff.mp h
    exact .inr ⟨op, Token.operator_eq_ok_iff.mp hread, rfl⟩

/-- A token that is accepted has the role that the reading is tried on. -/
theorem role_of_accepts {reading : Reading} {token : Token} (h : reading.accepts token = true) :
    token.role = reading.role := by
  rcases word_of_accepts h with ⟨leaf, hword, hrole⟩ | ⟨op, hword, rfl⟩
  · rw [Token.role, hword, Role.of_leaf, hrole]
  · rw [Token.role, hword, Role.of_operatorWord, role]

/-- A token of a role on which no reading is tried is accepted by none. -/
theorem accepts_eq_false_of_reading? {token : Token} (h : token.role.reading? = none)
    (reading : Reading) : reading.accepts token = false := by
  rw [Bool.eq_false_iff]
  intro haccepts
  rw [role_of_accepts haccepts, reading?_role] at h
  cases h

/-- A malformed token is accepted by no reading, also by none that is tried on another role. -/
theorem accepts_eq_false_of_malformed {token : Token} {fault : Fault} (h : token.Malformed fault)
    (reading : Reading) : reading.accepts token = false := by
  rw [Bool.eq_false_iff]
  intro haccepts
  rcases word_of_accepts haccepts with ⟨leaf, hword, _⟩ | ⟨op, hword, _⟩
  · exact Stack.not_malformed_of_leaf hword h
  · exact Stack.not_malformed_of_combine (fun stack => Stack.place_of_operator stack hword) h

end Reading

/-- Whether a fault says that a word does not fit its role. -/
def Fault.isMisfit : Fault → Bool
  | .malformedNumber => true
  | .numberTooBig => true
  | .malformedRead => true
  | .malformedAddress => true
  | .unknownOperator => true
  | _ => false

namespace Expression

/-- The tokens of a region are among the tokens that it is taken from. -/
theorem region_subset (tokens : List Token) : region tokens ⊆ tokens := by
  have hparts := extent_append tokens
  rw [extent_eq_region] at hparts
  exact List.IsPrefix.subset ⟨_, hparts⟩

/-- An expression that is refused for a misfit blames one of its tokens, and that token is
malformed. -/
theorem malformed_of_take {tokens : List Token} {token : Token} {line : Nat} {fault : Fault}
    (h : take tokens = .error ⟨fault, line, token⟩) (hmisfit : fault.isMisfit = true) :
    token ∈ tokens ∧ token.Malformed fault := by
  have houtcome := outcome_take tokens
  rw [h] at houtcome
  -- The other outcomes have faults of their own, and none of these is a misfit.
  cases houtcome with
  | refused hsplit _ hrefused =>
    cases hrefused with
    | malformed hmalformed =>
      have hmem : token ∈ region tokens := by simp [hsplit]
      exact ⟨region_subset tokens hmem, hmalformed⟩
    | missingOperands => cases hmisfit
    | nestingTooDeep => cases hmisfit
  | empty => cases hmisfit
  | leftover => cases hmisfit

end Expression

namespace Reading

/-- No token is accepted by two readings. One that is accepted has the role that the reading is tried
on, and a delimiter, `store` or a token without use is accepted by none. So a token that an expression
is refused for, because it does not fit its role, would not have fitted another one. -/
theorem role_hides_no_reading (token : Token) :
    (∀ first second : Reading, first.accepts token = true → second.accepts token = true →
        first = second) ∧
      (∀ reading : Reading, reading.accepts token = true → token.role = reading.role) ∧
      (token.role = .delimiter ∨ token.role = .store ∨ token.role = .foreign →
        ∀ reading : Reading, reading.accepts token = false) ∧
      ∀ tokens line fault, Expression.take tokens = .error ⟨fault, line, token⟩ →
        fault.isMisfit = true → token ∈ tokens ∧ ∀ reading : Reading, reading.accepts token = false := by
  refine ⟨?_, fun reading => role_of_accepts, ?_, ?_⟩
  · intro first second hfirst hsecond
    exact role_injective ((role_of_accepts hfirst).symm.trans (role_of_accepts hsecond))
  · intro hrole
    apply accepts_eq_false_of_reading?
    rcases hrole with hrole | hrole | hrole <;> simp [hrole, Role.reading?]
  · intro tokens line fault h hmisfit
    obtain ⟨hmem, hmalformed⟩ := Expression.malformed_of_take h hmisfit
    exact ⟨hmem, accepts_eq_false_of_malformed hmalformed⟩

/-- A read is read as nothing else and `store` is no operator. Digits with letters behind them are
refused as a number, and they are nothing else either. -/
theorem role_hides_no_reading_letters :
    (read.accepts ⟨"*.nrg", 5, .none⟩ = true ∧ (Token.mk "*.nrg" 5 .none).role = .read ∧
        ∀ other : Reading, other.accepts ⟨"*.nrg", 5, .none⟩ = true → other = .read) ∧
      ((Token.mk "store" 1 .none).role = .store ∧
        ∀ reading : Reading, reading.accepts ⟨"store", 1, .none⟩ = false) ∧
      Expression.take (Token.scan "1 12abc add") = .error ⟨.malformedNumber, 1, ⟨"12abc", 1, ⟨2, 7⟩⟩⟩ ∧
        ∀ reading : Reading, reading.accepts ⟨"12abc", 1, ⟨2, 7⟩⟩ = false := by
  have haccepts : read.accepts ⟨"*.nrg", 5, .none⟩ = true := by decide +kernel
  have hstore : (Token.mk "store" 1 .none).role = .store := by decide
  have hrefused : Expression.take (Token.scan "1 12abc add") =
      .error ⟨.malformedNumber, 1, ⟨"12abc", 1, ⟨2, 7⟩⟩⟩ := by decide +kernel
  obtain ⟨hunique, hrole, _⟩ := role_hides_no_reading ⟨"*.nrg", 5, .none⟩
  obtain ⟨_, _, hkeyword, _⟩ := role_hides_no_reading ⟨"store", 1, .none⟩
  obtain ⟨_, _, _, hmisfit⟩ := role_hides_no_reading ⟨"12abc", 1, ⟨2, 7⟩⟩
  exact ⟨⟨haccepts, hrole _ haccepts, fun other hother => hunique _ _ hother haccepts⟩,
    ⟨hstore, hkeyword (.inr (.inl hstore))⟩, hrefused, (hmisfit _ _ _ hrefused rfl).2⟩

end Reading

end GenomeScript

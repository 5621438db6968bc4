import GenomeScript.Operator
import GenomeScript.Token

/-!
# Readings of one token

A token can be read as a number, as a read of a sysvar (`*.name`), as the address of a sysvar
(`.name`) or as an operator. No text admits two of these readings. The names are identifiers: an
ASCII letter or an underscore, followed by ASCII letters, digits and underscores. A store may hold
other names, but no token spells them.

A script that cannot be read is refused with one fault, the token blamed for it and the line of that
token. A fault that no token explains blames the token that stands nowhere.
-/

namespace GenomeScript

/-! ## Failures -/

/-- What is wrong with a script. -/
inductive Fault where
  | malformedNumber
  | numberTooBig
  | malformedRead
  | malformedAddress
  | unknownOperator
  | missingOperands
  | leftoverOperands (count : Nat)
  | nestingTooDeep
  | emptyExpression
  | unexpectedToken
  | missingStart
  | missingStop
deriving DecidableEq, Repr

/-- The wording of a fault. -/
def Fault.message : Fault → String
  | .malformedNumber => "malformed number"
  | .numberTooBig => "number literal too big"
  | .malformedRead => "malformed sysvar read"
  | .malformedAddress => "malformed sysvar address"
  | .unknownOperator => "unknown operator"
  | .missingOperands => "not enough operands"
  | .leftoverOperands count =>
    "expression leaves " ++ Numeral.renderCount count ++ " values behind"
  | .nestingTooDeep => "expression nests too deeply"
  | .emptyExpression => "empty expression"
  | .unexpectedToken => "unexpected token after expression"
  | .missingStart => "body must begin with `start`"
  | .missingStop => "body is missing `stop`"

/-- A fault, the line on which the script fails and the token blamed. -/
structure Failure where
  fault : Fault
  line : Nat
  blamed : Token
deriving DecidableEq, Repr

namespace Failure

/-- Blame a token for a fault. -/
def blame (fault : Fault) (token : Token) : Failure :=
  { fault, line := token.line, blamed := token }

/-- Blame no token of the script for a fault. -/
def synthetic (fault : Fault) : Failure :=
  blame fault .nowhere

/-- Blame a token if there is one. -/
def at? (fault : Fault) : Option Token → Failure
  | some token => blame fault token
  | none => synthetic fault

/-- The wording of a failure: the fault, the line and the blamed text. -/
def message (failure : Failure) : String :=
  failure.fault.message ++ " at line " ++ Numeral.renderCount failure.line ++ ": `" ++
    failure.blamed.text ++ "`"

/-- Failures that blame tokens agree when the faults and the tokens do. -/
@[simp] theorem blame_inj {f g : Fault} {t u : Token} : blame f t = blame g u ↔ f = g ∧ t = u := by
  constructor
  · intro h
    exact ⟨congrArg fault h, congrArg blamed h⟩
  · rintro ⟨rfl, rfl⟩
    rfl

/-- Blaming a token if there is one blames the token nowhere otherwise. -/
theorem at?_eq (fault : Fault) (token? : Option Token) :
    at? fault token? = blame fault (token?.getD .nowhere) := by
  cases token? <;> rfl

end Failure

/-! ## Identifiers -/

namespace Identifier

/-- The characters that may open an identifier. -/
def isHead (c : Char) : Bool :=
  c.isAlpha || c == '_'

/-- The characters that may follow inside an identifier. -/
def isTail (c : Char) : Bool :=
  c.isAlphanum || c == '_'

/-- Whether the characters spell an identifier. -/
def accepts : List Char → Bool
  | [] => false
  | c :: cs => isHead c && cs.all isTail

/-- Whether a name is an identifier. -/
def isIdentifier (name : String) : Bool :=
  accepts name.toList

end Identifier

/-! ## Readings -/

namespace Token

/-- The fault of a number token, given the fault of its numeral. -/
def numberFault : Numeral.Fault → Fault
  | .tooLarge => .numberTooBig
  | .tooSmall => .numberTooBig
  | .empty => .malformedNumber
  | .invalidDigit => .malformedNumber

/-- Read a token as a number. -/
def number (token : Token) : Except Failure Value :=
  (Numeral.readValue token.text.toList).mapError fun fault => .blame (numberFault fault) token

/-- An identifier, or else the given failure. -/
def identifierOr (failure : Failure) (name : List Char) : Except Failure String :=
  if Identifier.accepts name then .ok (String.ofList name) else .error failure

/-- Read a token as a read, giving the name. -/
def read (token : Token) : Except Failure String :=
  match token.text.toList with
  | '*' :: '.' :: name => identifierOr (.blame .malformedRead token) name
  | _ => .error (.blame .malformedRead token)

/-- Read a token as an address, giving the name. -/
def address (token : Token) : Except Failure String :=
  match token.text.toList with
  | '.' :: name => identifierOr (.blame .malformedAddress token) name
  | _ => .error (.blame .malformedAddress token)

/-- Read a token as an operator. -/
def operator (token : Token) : Except Failure Operator :=
  match Operator.ofKeyword? token.text with
  | some op => .ok op
  | none => .error (.blame .unknownOperator token)

end Token

end GenomeScript

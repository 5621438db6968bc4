import GenomeScript.Command
import GenomeScript.Reading

/-!
# Expressions

An expression is built on a stack of commands, the top first. A leaf is pushed; an operator and a
store replace the two topmost commands by their combination. Each command on the stack is kept with
its depth, which is one for a leaf and one more than the deeper of two commands for their
combination. Combinations above a fixed depth are refused.

An expression takes the tokens up to the first that has no place in one, or up to and with the first
`store`, whichever comes first. Its tokens must leave exactly one command on the operand stack. So an
expression takes at least one token, and the tokens it leaves are the end of those it was given.
-/

namespace GenomeScript

/-! ## The operand stack -/

/-- A command that waits for an operator, with its depth. -/
structure Stack.Entry where
  command : Command
  depth : Nat
deriving DecidableEq

/-- The commands that wait for an operator, the latest first. -/
abbrev Stack := List Stack.Entry

namespace Stack

/-- The greatest depth of a command in an expression. -/
def maxDepth : Nat := 256

/-- The depth of what a token combines out of two commands, unless it is too great. -/
def nest (token : Token) (lower upper : Entry) : Except Failure Nat :=
  let depth := 1 + max lower.depth upper.depth
  if maxDepth < depth then .error (.blame .nestingTooDeep token) else .ok depth

/-- Replace the two topmost commands by what `join` makes of them, the topmost given first. -/
def combine (token : Token) (join : Command → Command → Command) : Stack → Except Failure Stack
  | top :: below :: stack => do
    let depth ← nest token below top
    .ok (⟨join top.command below.command, depth⟩ :: stack)
  | _ => .error (.blame .missingOperands token)

/-- Push a command that is a leaf. -/
def pushLeaf (stack : Stack) (command : Command) : Stack := ⟨command, 1⟩ :: stack

/-- The stack after a token. A token that has no place in an expression is refused. -/
def place (stack : Stack) (token : Token) : Except Failure Stack :=
  match token.role with
  | .number => token.number.map fun value => stack.pushLeaf (.number value)
  | .read => token.read.map fun name => stack.pushLeaf (.read name)
  | .address => token.address.map fun name => stack.pushLeaf (.address name)
  | .store => combine token .store stack
  | .operator => do
    let op ← token.operator
    combine token (fun rhs lhs => .binary op lhs rhs) stack
  | .delimiter => .error (.blame .unexpectedToken token)
  | .foreign => .error (.blame .unexpectedToken token)

/-- The stack after tokens in order, or the failure of the first one that fails. -/
def placeAll (stack : Stack) (tokens : List Token) : Except Failure Stack :=
  tokens.foldlM place stack

@[simp] theorem placeAll_nil (stack : Stack) : stack.placeAll [] = .ok stack := rfl

/-- The first token is placed before the others. -/
theorem placeAll_cons (stack : Stack) (token : Token) (tokens : List Token) :
    stack.placeAll (token :: tokens) = stack.place token >>= fun next => placeAll next tokens := by
  simp [placeAll]

/-- Tokens in two parts are placed one part after the other. -/
theorem placeAll_append (stack : Stack) (xs ys : List Token) :
    stack.placeAll (xs ++ ys) = stack.placeAll xs >>= fun next => placeAll next ys := by
  simp [placeAll, List.foldlM_append]

end Stack

/-! ## Taking an expression -/

namespace Expression

/-- Divide tokens into those of the expression at the front and the rest. -/
def extent : List Token → List Token × List Token
  | [] => ([], [])
  | token :: tokens =>
    match token.role with
    | .delimiter => ([], token :: tokens)
    | .foreign => ([], token :: tokens)
    | .store => ([token], tokens)
    | _ => (token :: (extent tokens).1, (extent tokens).2)

/-- The one command that an expression leaves, with the rest of the tokens. -/
def conclude (own rest : List Token) : Stack → Except Failure (Command × List Token)
  | [entry] => .ok (entry.command, rest)
  | [] => .error (.at? .emptyExpression rest.head?)
  | stack => .error (.at? (.leftoverOperands stack.length) own.getLast?)

/-- Read the expression at the front of tokens, giving the rest of them too. -/
def take (tokens : List Token) : Except Failure (Command × List Token) := do
  let (own, rest) := extent tokens
  conclude own rest (← Stack.placeAll [] own)

/-- Read tokens as one expression with nothing after it. -/
def ofTokens (tokens : List Token) : Except Failure Command := do
  match ← take tokens with
  | (command, []) => .ok command
  | (_, token :: _) => .error (.blame .unexpectedToken token)

/-- The two parts are the tokens again. -/
theorem extent_append (tokens : List Token) : (extent tokens).1 ++ (extent tokens).2 = tokens := by
  induction tokens with
  | nil => rfl
  | cons token tokens ih =>
    rw [extent]
    split <;> simp [ih]

/-- The expression that succeeds is the single command left by its own tokens. -/
theorem take_eq_ok_iff {tokens rest : List Token} {command : Command} :
    take tokens = .ok (command, rest) ↔
      (∃ depth, Stack.placeAll [] (extent tokens).1 = .ok [⟨command, depth⟩]) ∧
        (extent tokens).2 = rest := by
  simp only [take]
  cases h : Stack.placeAll [] (extent tokens).1 with
  | error failure => simp [bind, Except.bind]
  | ok stack =>
    match stack with
    | [] => simp [bind, Except.bind, conclude]
    | [⟨c, depth⟩] => simp [bind, Except.bind, conclude]
    | _ :: _ :: _ => simp [bind, Except.bind, conclude]

/-- An expression takes at least one token. -/
theorem length_rest_lt {tokens rest : List Token} {command : Command}
    (h : take tokens = .ok (command, rest)) : rest.length < tokens.length := by
  obtain ⟨⟨depth, hplaced⟩, rfl⟩ := take_eq_ok_iff.mp h
  have hne : (extent tokens).1 ≠ [] := by
    intro hnil
    rw [hnil, Stack.placeAll_nil] at hplaced
    simp at hplaced
  have hlength := congrArg List.length (extent_append tokens)
  rw [List.length_append] at hlength
  have := List.length_pos_iff.mpr hne
  omega

end Expression

end GenomeScript

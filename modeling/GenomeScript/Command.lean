import GenomeScript.Operator
import GenomeScript.Store.Basic
import GenomeScript.Token

/-!
# Commands

A command is a tree: numbers, reads of sysvars and addresses of sysvars at the leaves, and stores,
arithmetic and sequences above them. Commands built by hand may nest in any way and use any text as
a name; those read from a script are more regular.

Evaluating a command yields an operand and the store as the command leaves it. A store command
evaluates its address before its value and writes under the text of the address operand; arithmetic
evaluates from left to right; a sequence yields its last operand. As text a command is written in
postfix: operands before the operator that takes them, a sequence between its two keywords, and one
space between words.
-/

namespace GenomeScript

/-- Something that can be evaluated against a store. -/
inductive Command where
  | number (value : Value)
  | read (name : String)
  | address (name : String)
  | store (target value : Command)
  | binary (op : Operator) (lhs rhs : Command)
  | sequence (commands : List Command)

namespace Command

mutual

/-- Whether two commands are the same tree. -/
def same : Command → Command → Bool
  | .number m, .number n => m == n
  | .read x, .read y => x == y
  | .address x, .address y => x == y
  | .store a v, .store b w => same a b && same v w
  | .binary f a v, .binary g b w => f == g && same a b && same v w
  | .sequence cs, .sequence ds => sames cs ds
  | _, _ => false

/-- Whether two lists of commands are the same, one by one. -/
def sames : List Command → List Command → Bool
  | [], [] => true
  | c :: cs, d :: ds => same c d && sames cs ds
  | _, _ => false

end

mutual

/-- Sameness of trees is equality. -/
theorem same_iff : (c d : Command) → (same c d = true ↔ c = d)
  | .number m, d => by cases d <;> simp [same]
  | .read x, d => by cases d <;> simp [same]
  | .address x, d => by cases d <;> simp [same]
  | .store a v, d => by
    cases d with
    | store b w => simp [same, same_iff a b, same_iff v w]
    | _ => simp [same]
  | .binary f a v, d => by
    cases d with
    | binary g b w => simp [same, same_iff a b, same_iff v w, and_assoc]
    | _ => simp [same]
  | .sequence cs, d => by
    cases d with
    | sequence ds => simp [same, sames_iff cs ds]
    | _ => simp [same]

/-- Sameness of lists of trees is equality. -/
theorem sames_iff : (cs ds : List Command) → (sames cs ds = true ↔ cs = ds)
  | [], ds => by cases ds <;> simp [sames]
  | c :: cs, ds => by
    cases ds with
    | nil => simp [sames]
    | cons d ds => simp [sames, same_iff c d, sames_iff cs ds]

end

instance : DecidableEq Command := fun c d => decidable_of_iff _ (same_iff c d)

/-! ## Evaluation -/

mutual

/-- Evaluate a command. -/
def eval : Command → Store → Operand × Store
  | .number value, s => (.number value, s)
  | .read name, s => (.number (s.get name), s)
  | .address name, s => (.text name, s)
  | .store target value, s =>
    let (place, s) := eval target s
    let (result, s) := eval value s
    (.number result.finish, s.set place.display result.finish)
  | .binary op lhs rhs, s =>
    let (a, s) := eval lhs s
    let (b, s) := eval rhs s
    (.number (op.apply a b), s)
  | .sequence commands, s => evalAll (.number 0) commands s

/-- Evaluate commands in order; the operand is the last one, or `last` if there are none. -/
def evalAll (last : Operand) : List Command → Store → Operand × Store
  | [], s => (last, s)
  | command :: commands, s =>
    let (operand, s) := eval command s
    evalAll operand commands s

end

/-- Evaluate a command to a number. -/
def run (command : Command) (s : Store) : Value × Store :=
  let (operand, s) := command.eval s
  (operand.finish, s)

@[simp] theorem eval_number (value : Value) (s : Store) :
    (number value).eval s = (.number value, s) := by
  simp only [eval]

@[simp] theorem eval_read (name : String) (s : Store) :
    (read name).eval s = (.number (s.get name), s) := by
  simp only [eval]

@[simp] theorem eval_address (name : String) (s : Store) :
    (address name).eval s = (.text name, s) := by
  simp only [eval]

/-- A store command evaluates its address, then its value, and writes. -/
theorem eval_store (target value : Command) (s : Store) :
    (store target value).eval s =
      (.number (value.eval (target.eval s).2).1.finish,
        (value.eval (target.eval s).2).2.set (target.eval s).1.display
          (value.eval (target.eval s).2).1.finish) := by
  simp only [eval]

/-- Arithmetic evaluates its left side, then its right side, and applies the operator. -/
theorem eval_binary (op : Operator) (lhs rhs : Command) (s : Store) :
    (binary op lhs rhs).eval s =
      (.number (op.apply (lhs.eval s).1 (rhs.eval (lhs.eval s).2).1),
        (rhs.eval (lhs.eval s).2).2) := by
  simp only [eval]

@[simp] theorem eval_sequence (commands : List Command) (s : Store) :
    (sequence commands).eval s = evalAll (.number 0) commands s := by
  simp only [eval]

@[simp] theorem evalAll_nil (last : Operand) (s : Store) : evalAll last [] s = (last, s) := by
  simp only [evalAll]

@[simp] theorem evalAll_cons (last : Operand) (command : Command) (commands : List Command)
    (s : Store) :
    evalAll last (command :: commands) s =
      evalAll (command.eval s).1 commands (command.eval s).2 := by
  simp only [evalAll]

/-- Commands in two parts are evaluated one part after the other. -/
theorem evalAll_append (last : Operand) (xs ys : List Command) (s : Store) :
    evalAll last (xs ++ ys) s = evalAll (evalAll last xs s).1 ys (evalAll last xs s).2 := by
  induction xs generalizing last s with
  | nil => simp
  | cons x xs ih => simp [ih]

/-! ## Postfix text -/

mutual

/-- The words of a command. -/
def words : Command → List String
  | .number value => [Numeral.render value]
  | .read name => ["*." ++ name]
  | .address name => ["." ++ name]
  | .store target value => value.words ++ target.words ++ [Keyword.store]
  | .binary op lhs rhs => lhs.words ++ rhs.words ++ [op.keyword]
  | .sequence commands => Keyword.start :: wordsAll commands ++ [Keyword.stop]

/-- The words of commands, one after the other. -/
def wordsAll : List Command → List String
  | [] => []
  | command :: commands => command.words ++ wordsAll commands

end

/-- The command as postfix text. -/
def display (command : Command) : String :=
  " ".intercalate command.words

end Command

end GenomeScript

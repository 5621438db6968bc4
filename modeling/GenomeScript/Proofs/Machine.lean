import GenomeScript.Proofs.Parsing

/-!
# Running without a tree

A script can be run in one pass over its tokens, on a stack of operands and without building
any command: leaves push, an operator replaces the two topmost operands, and `store` writes at
once. A command evaluates the target of a store before its value, while the words give the
value first. The two agree because a phrase never writes: its operands are the same wherever
between two stores they are computed. So the pass is followed over the tree of the grammar,
phrase by phrase, statement by statement and block by block.
-/

namespace GenomeScript

open Grammar

/-- The state of a pass: operands not yet used, the value of the latest expression of the body,
the values of the bodies that have ended, and the store. -/
structure Machine where
  stack : List Operand
  value : Value
  results : List Value
  store : Store

namespace Machine

/-- The state before the first token. -/
def initial (store : Store) : Machine := ⟨[], 0, [], store⟩

/-- Push an operand. -/
def push (machine : Machine) (operand : Operand) : Machine :=
  { machine with stack := operand :: machine.stack }

/-- Write a value under a name; it becomes the value of the expression. -/
def write (machine : Machine) (name : String) (value : Value) : Machine :=
  { machine with stack := [], value := value, store := machine.store.set name value }

/-- Begin a body. -/
def start (machine : Machine) : Machine :=
  { machine with stack := [], value := 0 }

/-- The value of the last expression: the operand left on the stack, or what was stored last. -/
def lastValue (machine : Machine) : Value :=
  match machine.stack with
  | [] => machine.value
  | operand :: _ => operand.finish

/-- End a body and keep its value. -/
def stop (machine : Machine) : Machine :=
  { machine with stack := [], results := machine.results ++ [machine.lastValue] }

/-- Use the two topmost operands, the topmost given first. -/
def useTwo (machine : Machine) (next : Operand → Operand → List Operand → Machine) : Option Machine :=
  match machine.stack with
  | top :: below :: rest => some (next top below rest)
  | _ => none

/-- The state after a token, unless the token cannot be executed. -/
def step (machine : Machine) (token : Token) : Option Machine :=
  match token.role with
  | .number => token.number.toOption.map fun value => machine.push (.number value)
  | .read => token.read.toOption.map fun name => machine.push (.number (machine.store.get name))
  | .address => token.address.toOption.map fun name => machine.push (.text name)
  | .operator => token.operator.toOption.bind fun op =>
      machine.useTwo fun b a rest => { machine with stack := .number (op.apply a b) :: rest }
  | .store => machine.useTwo fun place operand _ => machine.write place.display operand.finish
  | .delimiter => some (if token.text = Keyword.start then machine.start else machine.stop)
  | .foreign => none

/-- The state after tokens in order. -/
def run (machine : Machine) (tokens : List Token) : Option Machine :=
  tokens.foldlM step machine

@[simp] theorem run_nil (machine : Machine) : machine.run [] = some machine := rfl

/-- The first token is executed before the others. -/
theorem run_cons (machine : Machine) (token : Token) (tokens : List Token) :
    machine.run (token :: tokens) = (machine.step token).bind fun next => next.run tokens := by
  simp [run]

/-- Tokens in two parts are executed one part after the other. -/
theorem run_append (machine : Machine) (xs ys : List Token) :
    machine.run (xs ++ ys) = (machine.run xs).bind fun next => next.run ys := by
  simp [run, List.foldlM_append]

/-- A leaf pushes what its command evaluates to. -/
theorem step_of_leaf (machine : Machine) {token : Token} {leaf : Leaf} (h : token.text = leaf.word) :
    machine.step token = some (machine.push (leaf.command.eval machine.store).1) := by
  have hrole : token.role = leaf.role := by rw [Token.role, h, Role.of_leaf]
  unfold step
  rw [hrole]
  cases leaf with
  | number literal value spelled =>
    rw [Leaf.role, Token.number_eq_ok_iff.mpr ⟨literal, spelled, h⟩, Leaf.command, Command.eval_number]
    rfl
  | read name =>
    rw [Leaf.role, Token.read_eq_ok_iff.mpr ⟨name, h, rfl⟩, Leaf.command, Command.eval_read]
    rfl
  | address name =>
    rw [Leaf.role, Token.address_eq_ok_iff.mpr ⟨name, h, rfl⟩, Leaf.command, Command.eval_address]
    rfl

/-- An operator replaces the two topmost operands by its result. -/
theorem step_of_operator (machine : Machine) {token : Token} {op : Operator} (a b : Operand)
    (h : token.text = operatorWord op) :
    ((machine.push a).push b).step token = some (machine.push (.number (op.apply a b))) := by
  have hrole : token.role = .operator := by rw [Token.role, h, Role.of_operatorWord]
  unfold step
  rw [hrole, Token.operator_eq_ok_iff.mpr h]
  rfl

/-- The word `store` writes the lower operand under the text of the topmost one. -/
theorem step_of_store (machine : Machine) {token : Token} (operand place : Operand)
    (h : token.text = "store") :
    ((machine.push operand).push place).step token =
      some (machine.write place.display operand.finish) := by
  have hrole : token.role = .store := Role.of_eq_store_iff.mpr h
  unfold step
  rw [hrole]
  rfl

/-- The word `start` begins a body. -/
theorem step_of_start (machine : Machine) {token : Token} (h : token.text = "start") :
    machine.step token = some machine.start := by
  have hrole : token.role = .delimiter := Role.of_eq_delimiter_iff.mpr (.inl h)
  unfold step
  rw [hrole]
  simp [h, Keyword.start]

/-- The word `stop` ends a body. -/
theorem step_of_stop (machine : Machine) {token : Token} (h : token.text = "stop") :
    machine.step token = some machine.stop := by
  have hrole : token.role = .delimiter := Role.of_eq_delimiter_iff.mpr (.inr h)
  unfold step
  rw [hrole]
  simp [h, Keyword.start]

end Machine

namespace Grammar

/-- A phrase writes nothing. -/
theorem Phrase.store_eval_command (phrase : Phrase) (store : Store) :
    (phrase.command.eval store).2 = store := by
  induction phrase generalizing store with
  | leaf operand => cases operand <;> simp [Phrase.command, Leaf.command]
  | combine lhs rhs op ihl ihr => rw [Phrase.command, Command.eval_binary, ihl, ihr]

/-- Both sides of an operator are evaluated in the store in which the phrase is. -/
theorem Phrase.eval_combine (lhs rhs : Phrase) (op : Operator) (store : Store) :
    ((Phrase.combine lhs rhs op).command.eval store).1 =
      .number (op.apply (lhs.command.eval store).1 (rhs.command.eval store).1) := by
  rw [Phrase.command, Command.eval_binary, lhs.store_eval_command]

/-- A statement evaluates both its sides in the store in which it stands, so their order does
not matter, and then writes. -/
theorem Statement.eval_command (statement : Statement) (store : Store) :
    statement.command.eval store =
      (.number (statement.value.command.eval store).1.finish,
        store.set (statement.target.command.eval store).1.display
          (statement.value.command.eval store).1.finish) := by
  rw [Statement.command, Command.eval_store, statement.target.store_eval_command,
    statement.value.store_eval_command]

end Grammar

namespace Machine

/-- The words of a phrase push what the phrase evaluates to, whatever lies below. -/
theorem run_of_phrase {phrase : Phrase} {tokens : List Token}
    (h : tokens.map Token.text = phrase.words) (machine : Machine) :
    machine.run tokens = some (machine.push (phrase.command.eval machine.store).1) := by
  induction phrase generalizing tokens machine with
  | leaf operand =>
    obtain ⟨token, rfl, hword⟩ := List.map_eq_singleton_iff.mp h
    rw [run_cons, step_of_leaf machine hword]
    rfl
  | combine lhs rhs op ihl ihr =>
    obtain ⟨left, right, token, rfl, hleft, hright, hword⟩ := Token.exists_of_map_text_append h
    have hstore : (machine.push (lhs.command.eval machine.store).1).store = machine.store := rfl
    rw [run_append, run_append, ihl hleft, Option.bind_some, ihr hright, Option.bind_some, hstore,
      run_cons, step_of_operator machine _ _ hword, Phrase.eval_combine]
    rfl

/-- The words of a statement write what the statement writes and leave its value. -/
theorem run_of_statement {statement : Statement} {tokens : List Token}
    (h : tokens.map Token.text = statement.words) (machine : Machine) :
    ∃ next : Machine, machine.run tokens = some next ∧ next.stack = [] ∧
      next.results = machine.results ∧
      statement.command.eval machine.store = (.number next.value, next.store) := by
  obtain ⟨left, right, token, rfl, hleft, hright, hword⟩ := Token.exists_of_map_text_append h
  have hstore : (machine.push (statement.value.command.eval machine.store).1).store = machine.store :=
    rfl
  refine ⟨machine.write (statement.target.command.eval machine.store).1.display
    (statement.value.command.eval machine.store).1.finish, ?_, rfl, rfl, ?_⟩
  · rw [run_append, run_append, run_of_phrase hleft, Option.bind_some, run_of_phrase hright,
      Option.bind_some, hstore, run_cons, step_of_store machine _ _ hword]
    rfl
  · rw [statement.eval_command]
    rfl

/-- The words of statements in order do what evaluating the statements in order does. -/
theorem run_of_statements {statements : List Statement} {tokens : List Token}
    (h : tokens.map Token.text = statements.flatMap Statement.words) (machine : Machine)
    (hstack : machine.stack = []) :
    ∃ next : Machine, machine.run tokens = some next ∧ next.stack = [] ∧
      next.results = machine.results ∧
      Command.evalAll (.number machine.value) (statements.map Statement.command) machine.store =
        (.number next.value, next.store) := by
  induction statements generalizing tokens machine with
  | nil =>
    obtain rfl : tokens = [] := List.map_eq_nil_iff.mp h
    exact ⟨machine, rfl, hstack, rfl, by rw [List.map_nil, Command.evalAll_nil]⟩
  | cons statement statements ih =>
    obtain ⟨first, later, rfl, hfirst, hlater⟩ := List.map_eq_append_iff.mp h
    obtain ⟨middle, hmiddle, hempty, hresults, heval⟩ := run_of_statement hfirst machine
    obtain ⟨next, hnext, hnextStack, hnextResults, hall⟩ := ih hlater middle hempty
    refine ⟨next, ?_, hnextStack, hnextResults.trans hresults, ?_⟩
    · rw [run_append, hmiddle, Option.bind_some, hnext]
    · rw [List.map_cons, Command.evalAll_cons, heval]
      exact hall

/-- The words between the delimiters leave the value of the block as the last value. -/
theorem run_of_inner {block : Block} {tokens : List Token}
    (h : tokens.map Token.text = block.inner) (machine : Machine) :
    ∃ next : Machine, machine.start.run tokens = some next ∧ next.results = machine.results ∧
      block.command.run machine.store = (next.lastValue, next.store) := by
  obtain ⟨first, last, rfl, hfirst, hlast⟩ := List.map_eq_append_iff.mp h
  obtain ⟨middle, hmiddle, hstack, hresults, hall⟩ :=
    run_of_statements hfirst machine.start rfl
  have heval : Command.evalAll (.number 0) (block.statements.map Statement.command) machine.store =
      (.number middle.value, middle.store) := hall
  unfold Block.command Block.commands
  cases hclosing : block.closing with
  | none =>
    obtain rfl : last = [] := by simpa [hclosing] using hlast
    refine ⟨middle, by rw [List.append_nil, hmiddle], hresults, ?_⟩
    rw [Option.map_none, Option.toList_none, List.append_nil, Command.run, Command.eval_sequence, heval]
    simp [lastValue, hstack]
  | some shallow =>
    have hphrase : last.map Token.text = shallow.phrase.words := by simpa [hclosing] using hlast
    refine ⟨middle.push (shallow.phrase.command.eval middle.store).1, ?_, hresults, ?_⟩
    · rw [run_append, hmiddle, Option.bind_some, run_of_phrase hphrase]
    · rw [Option.map_some, Option.toList_some, Command.run, Command.eval_sequence,
        Command.evalAll_append, heval, Command.evalAll_cons, Command.evalAll_nil,
        shallow.phrase.store_eval_command]
      rfl

/-- The words of a block do what running the block does and keep its value. -/
theorem run_of_block {block : Block} {tokens : List Token}
    (h : tokens.map Token.text = block.words) (machine : Machine) :
    ∃ next : Machine, machine.run tokens = some next ∧
      next.store = (block.command.run machine.store).2 ∧
      next.results = machine.results ++ [(block.command.run machine.store).1] := by
  obtain ⟨start, inner, stop, rfl, hstart, hinner, hstop⟩ := Token.exists_of_map_text_block h
  obtain ⟨middle, hmiddle, hresults, hrun⟩ := run_of_inner hinner machine
  refine ⟨middle.stop, ?_, by rw [hrun]; rfl, by rw [hrun, ← hresults]; rfl⟩
  rw [List.cons_append, run_cons, step_of_start machine hstart, Option.bind_some, run_append, hmiddle,
    Option.bind_some, run_cons, step_of_stop middle hstop]
  rfl

/-- The value of each body, the bodies run in order against one store. -/
def bodyValues : List Command → Store → List Value
  | [], _ => []
  | body :: bodies, store => (body.run store).1 :: bodyValues bodies (body.run store).2

/-- The words of a script do what a cycle of its genome does and keep the value of each body. -/
theorem run_of_script {script : Script} {tokens : List Token}
    (h : tokens.map Token.text = script.words) (machine : Machine) :
    ∃ next : Machine, machine.run tokens = some next ∧
      next.store = script.genome.run machine.store ∧
      next.results = machine.results ++ bodyValues script.genome.bodies machine.store := by
  obtain ⟨blocks⟩ := script
  induction blocks generalizing tokens machine with
  | nil =>
    obtain rfl : tokens = [] := List.map_eq_nil_iff.mp h
    exact ⟨machine, rfl, rfl, by simp [Script.genome, bodyValues]⟩
  | cons block blocks ih =>
    obtain ⟨first, later, rfl, hfirst, hlater⟩ := List.map_eq_append_iff.mp h
    obtain ⟨middle, hmiddle, hstore, hresults⟩ := run_of_block hfirst machine
    obtain ⟨next, hnext, hnextStore, hnextResults⟩ := ih middle hlater
    refine ⟨next, ?_, ?_, ?_⟩
    · rw [run_append, hmiddle, Option.bind_some, hnext]
    · rw [hnextStore, hstore]
      rfl
    · rw [hnextResults, hresults, hstore, List.append_assoc]
      rfl

/-- Tokens that are read as a genome are executed in one pass, which ends in the store that a
cycle of the genome ends in and gives each body the value that running the body gives. -/
theorem run_eq_genome_run {tokens : List Token} {genome : Genome}
    (h : Genome.ofTokens tokens = .ok genome) (store : Store) :
    ∃ final : Machine, (initial store).run tokens = some final ∧ final.store = genome.run store ∧
      final.results = bodyValues genome.bodies store := by
  obtain ⟨script, hwords, rfl⟩ := Genome.ofTokens_eq_ok_iff_script.mp h
  obtain ⟨final, hrun, hstore, hresults⟩ := run_of_script hwords.symm (initial store)
  exact ⟨final, hrun, hstore, by rw [hresults]; rfl⟩

/-- The value of a body whose last expression stores under a number, and of an empty body. -/
theorem run_eq_genome_run_two_bodies :
    Genome.ofTokens (Token.scan "start 5 .x store *.x 2 mult 7 store stop start stop") =
        .ok ⟨[.sequence [.store (.address "x") (.number 5),
          .store (.number 7) (.binary .mult (.read "x") (.number 2))], .sequence []]⟩ ∧
      ∃ final : Machine,
        (initial .empty).run (Token.scan "start 5 .x store *.x 2 mult 7 store stop start stop") =
          some final ∧ final.store = .ofList [("7", 10), ("x", 5)] ∧ final.results = [10, 0] := by
  have hread : Genome.ofTokens (Token.scan "start 5 .x store *.x 2 mult 7 store stop start stop") =
      .ok ⟨[.sequence [.store (.address "x") (.number 5),
        .store (.number 7) (.binary .mult (.read "x") (.number 2))], .sequence []]⟩ := by
    decide +kernel
  obtain ⟨final, hrun, hstore, hresults⟩ := run_eq_genome_run hread .empty
  exact ⟨hread, final, hrun, hstore.trans (by decide +kernel), hresults.trans (by decide +kernel)⟩

end Machine

end GenomeScript

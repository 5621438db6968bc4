import GenomeScript.Proofs.Frame
import GenomeScript.Proofs.Trimming

/-!
# Addresses count as zero

An address evaluates to the text of its name, and everything else in an expression evaluates to a
number, so the text reaches the command right above the address and goes no further. The target of
a store is named by it. Anywhere else it counts for nothing: a name begins with a letter or an
underscore, so it is no numeral, and an operator gives zero if one of its operands is no number,
whatever the other one is. A store whose value is an address writes zero, and an address that stands
alone runs to zero.
-/

namespace GenomeScript

open Grammar

/-- The text of an identifier is no number. -/
theorem Operand.coerce?_text_of_isIdentifier {text : String}
    (h : Identifier.isIdentifier text = true) : coerce? (.text text) = none := by
  obtain ⟨name, rfl⟩ := exists_name h
  have hchars : Text.trim name.text.toList = name.first :: name.others := by
    rw [Name.text, String.toList_ofList, Text.trim_eq_self_of_forall name.isBlank_eq_false]
    rfl
  have hunread : ∀ value, Numeral.readValue (name.first :: name.others) ≠ .ok value := by
    intro value hread
    obtain ⟨literal, hliteral, _⟩ := Numeral.readValue_eq_ok_iff.mp hread
    exact literal_chars_ne_name literal name hliteral
  simp only [coerce?, numberOfText?, hchars]
  cases hread : Numeral.readValue (name.first :: name.others) with
  | ok value => exact absurd hread (hunread value)
  | error fault => rfl

/-- The text of an identifier ends as zero. -/
theorem Operand.finish_text_of_isIdentifier {text : String}
    (h : Identifier.isIdentifier text = true) : finish (.text text) = 0 := by
  rw [finish, coerce?_text_of_isIdentifier h, Option.getD_none]

/-- An operator that meets the text of an identifier on either side gives zero. -/
theorem Operator.apply_text_of_isIdentifier (op : Operator) {text : String}
    (h : Identifier.isIdentifier text = true) (operand : Operand) :
    op.apply (.text text) operand = 0 ∧ op.apply operand (.text text) = 0 := by
  have hnone := Operand.coerce?_text_of_isIdentifier h
  exact ⟨op.apply_of_coerce?_left_eq_none operand hnone, op.apply_of_coerce?_right_eq_none operand hnone⟩

namespace Grammar

/-- Every part of a phrase is a phrase. -/
theorem Phrase.exists_of_mem {phrase : Phrase} {part : Command}
    (h : part ∈ phrase.command :: phrase.command.inside) : ∃ inner : Phrase, inner.command = part := by
  induction phrase with
  | leaf operand =>
    refine ⟨.leaf operand, ?_⟩
    cases operand <;> simpa [Phrase.command, Leaf.command, Command.inside, eq_comm] using h
  | combine lhs rhs op ihl ihr =>
    rw [Phrase.command, Command.inside, List.mem_cons, List.mem_append] at h
    rcases h with hroot | hleft | hright
    · exact ⟨.combine lhs rhs op, hroot.symm⟩
    · exact ihl hleft
    · exact ihr hright

/-- A phrase that is an address names an identifier. -/
theorem Phrase.isIdentifier_of_address {phrase : Phrase} {text : String}
    (h : phrase.command = .address text) : Identifier.isIdentifier text = true := by
  have hname := phrase.isPure_command.root.2.2 text
  rw [h] at hname
  exact hname rfl

/-- A phrase that applies an operator applies it to two phrases, and writes nothing. -/
theorem Phrase.eval_of_binary {phrase : Phrase} {op : Operator} {lhs rhs : Command}
    (h : phrase.command = .binary op lhs rhs) :
    ∃ left right : Phrase, left.command = lhs ∧ right.command = rhs ∧
      ∀ s, (Command.binary op lhs rhs).eval s = (.number (op.apply (lhs.eval s).1 (rhs.eval s).1), s) := by
  cases phrase with
  | leaf operand => cases operand <;> cases h
  | combine left right op' =>
    obtain ⟨rfl, rfl, rfl⟩ := Command.binary.inj h
    refine ⟨left, right, rfl, rfl, ?_⟩
    intro s
    rw [Command.eval_binary, left.store_eval_command, right.store_eval_command]

end Grammar

namespace Command

/-- Every part of an expression is a statement or a phrase. -/
theorem IsExpression.statement_or_phrase_of_mem {command part : Command} (h : command.IsExpression)
    (hpart : part ∈ command :: command.inside) :
    (∃ statement : Statement, statement.command = part) ∨ ∃ phrase : Phrase, phrase.command = part := by
  by_cases hstore : command.isStore = true
  · obtain ⟨statement, rfl, _⟩ := exists_statement_of_isExpression h hstore
    rcases List.mem_cons.mp hpart with hroot | hinside
    · exact .inl ⟨statement, hroot.symm⟩
    · rcases mem_inside_store.mp hinside with htarget | hvalue
      · exact .inr (Phrase.exists_of_mem htarget)
      · exact .inr (Phrase.exists_of_mem hvalue)
  · rw [Bool.not_eq_true] at hstore
    obtain ⟨shallow, rfl, _⟩ := exists_shallowPhrase_of_isExpression h hstore
    exact .inr (Phrase.exists_of_mem hpart)

section Parts

variable {command : Command} (h : command.IsExpression)

include h

/-- A part of an expression that is no address evaluates to a number. -/
theorem IsExpression.exists_eval_eq_number {part : Command} (hpart : part ∈ command :: command.inside)
    (hplain : ∀ name, part ≠ .address name) (s : Store) : ∃ value, (part.eval s).1 = .number value := by
  rcases h.statement_or_phrase_of_mem hpart with ⟨statement, rfl⟩ | ⟨phrase, rfl⟩
  · exact ⟨_, congrArg Prod.fst (statement.eval_command s)⟩
  · rcases phrase.operand_cases s with ⟨name, haddress, _⟩ | ⟨_, hnumber⟩
    · exact absurd haddress (hplain name.text)
    · exact hnumber

/-- An operator with an address on either side gives zero, wherever it stands in an expression. -/
theorem IsExpression.eval_binary_of_address {op : Operator} {lhs rhs : Command}
    (hpart : binary op lhs rhs ∈ command :: command.inside) {name : String}
    (haddress : lhs = .address name ∨ rhs = .address name) (s : Store) :
    (binary op lhs rhs).eval s = (.number 0, s) := by
  rcases h.statement_or_phrase_of_mem hpart with ⟨statement, hstatement⟩ | ⟨phrase, hphrase⟩
  · cases hstatement
  · obtain ⟨left, right, rfl, rfl, heval⟩ := Phrase.eval_of_binary hphrase
    rw [heval]
    rcases haddress with hleft | hright
    · have hname := Phrase.isIdentifier_of_address hleft
      rw [hleft, eval_address, (op.apply_text_of_isIdentifier hname _).1]
    · have hname := Phrase.isIdentifier_of_address hright
      rw [hright, eval_address, (op.apply_text_of_isIdentifier hname _).2]

/-- A store whose value is an address writes zero and gives zero. -/
theorem IsExpression.eval_store_of_address {target : Command} {name : String}
    (hpart : store target (.address name) ∈ command :: command.inside) (s : Store) :
    (store target (.address name)).eval s = (.number 0, s.set (target.eval s).1.display 0) := by
  rcases h.statement_or_phrase_of_mem hpart with ⟨statement, hstatement⟩ | ⟨phrase, hphrase⟩
  · obtain ⟨htarget, hvalue⟩ := Command.store.inj hstatement
    have hname := Phrase.isIdentifier_of_address hvalue
    rw [← hstatement, statement.eval_command, htarget, hvalue, eval_address,
      Operand.finish_text_of_isIdentifier hname]
  · have hplain := phrase.isStore_command
    rw [hphrase] at hplain
    cases hplain

end Parts

end Command

namespace Expression

/-- What is read as an expression is one. -/
theorem isExpression_of_take {tokens rest : List Token} {command : Command}
    (h : take tokens = .ok (command, rest)) : command.IsExpression := by
  obtain ⟨_, _, ⟨statement, _, rfl⟩ | ⟨shallow, _, rfl, _⟩⟩ := derives_of_take h
  · exact statement.isExpression_command
  · exact shallow.isExpression_command

/-- In an expression that is read from tokens every address evaluates to the text of its name, and
every other part to a number. The text of an identifier is no number. So an operator with an address
on either side gives zero, a store whose value is an address writes zero and gives zero, and an
address that stands alone runs to zero. -/
theorem addresses_count_as_zero {tokens rest : List Token} {command : Command}
    (h : take tokens = .ok (command, rest)) :
    (∀ part ∈ command :: command.inside, ∀ s,
      (∀ name, part = .address name → (part.eval s).1 = .text name) ∧
        ((∀ name, part ≠ .address name) → ∃ value, (part.eval s).1 = .number value)) ∧
    (∀ name, Identifier.isIdentifier name = true → (Operand.text name).coerce? = none) ∧
    (∀ op lhs rhs, .binary op lhs rhs ∈ command :: command.inside →
      (∃ name, lhs = .address name ∨ rhs = .address name) →
      ∀ s, (Command.binary op lhs rhs).eval s = (.number 0, s)) ∧
    (∀ target name, .store target (.address name) ∈ command :: command.inside →
      ∀ s, (Command.store target (.address name)).eval s =
        (.number 0, s.set (target.eval s).1.display 0)) ∧
    ∀ name, command = .address name → ∀ s, command.run s = (0, s) := by
  have hexpression := isExpression_of_take h
  refine ⟨?_, fun name => Operand.coerce?_text_of_isIdentifier, ?_, ?_, ?_⟩
  · intro part hpart s
    constructor
    · intro name hname
      rw [hname, Command.eval_address]
    · intro hplain
      exact hexpression.exists_eval_eq_number hpart hplain s
  · intro op lhs rhs hpart ⟨name, haddress⟩ s
    exact hexpression.eval_binary_of_address hpart haddress s
  · intro target name hpart s
    exact hexpression.eval_store_of_address hpart s
  · intro name hname s
    have hidentifier := hexpression.identifiers command List.mem_cons_self name (by rw [hname]; rfl)
    rw [hname, Command.run, Command.eval_address]
    exact congrArg (·, s) (Operand.finish_text_of_isIdentifier hidentifier)

/-- A division by an address gives zero, so the store writes under `0`, and its value is an address
too, so it writes zero there. -/
theorem addresses_count_as_zero_divisor :
    take (Token.scan ".a 7 .b div store stop") =
        .ok (.store (.binary .div (.number 7) (.address "b")) (.address "a"),
          [⟨"stop", 1, ⟨18, 22⟩⟩]) ∧
      (Command.binary .div (.number 7) (.address "b")).eval (.ofList [("b", 2)]) =
        (.number 0, .ofList [("b", 2)]) ∧
      (Command.store (.binary .div (.number 7) (.address "b")) (.address "a")).eval
          (.ofList [("b", 2)]) = (.number 0, .ofList [("b", 2), ("0", 0)]) ∧
      take (Token.scan ".a") = .ok (.address "a", []) ∧
      (Command.address "a").run (.ofList [("a", 5)]) = (0, .ofList [("a", 5)]) := by
  have hread : take (Token.scan ".a 7 .b div store stop") =
      .ok (.store (.binary .div (.number 7) (.address "b")) (.address "a"),
        [⟨"stop", 1, ⟨18, 22⟩⟩]) := by decide +kernel
  have halone : take (Token.scan ".a") = .ok (.address "a", []) := by decide +kernel
  obtain ⟨_, _, hbinary, hstore, _⟩ := addresses_count_as_zero hread
  obtain ⟨_, _, _, _, hrun⟩ := addresses_count_as_zero halone
  have hdivides := hbinary .div (.number 7) (.address "b") (by decide +kernel) ⟨"b", .inr rfl⟩
  refine ⟨hread, hdivides _, ?_, halone, hrun "a" rfl _⟩
  rw [hstore _ _ List.mem_cons_self, hdivides]
  rfl

end Expression

end GenomeScript

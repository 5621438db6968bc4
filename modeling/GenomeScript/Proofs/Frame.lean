import GenomeScript.Proofs.Canonical
import GenomeScript.Proofs.Machine
import GenomeScript.Proofs.Writes

/-!
# What a genome leaves alone

The name under which a store command writes is computed when it runs, so the names that a
genome writes cannot be listed from its text. They can be bounded. The address of a store
command that a script writes is a plain `.name`, and then the name is written, or it is a
number, a read or arithmetic, and then its operand is a number and the decimal text of that
number is written. Any other name keeps its presence and its value through any number of
cycles, no name is ever taken away, and a plain name that is stored is present after a cycle.
-/

namespace GenomeScript

open Grammar

namespace Command

/-- The expressions of a body. A body that is no sequence is its own only expression. -/
def expressions : Command → List Command
  | .sequence commands => commands
  | command => [command]

/-- The plain name under which a command stores, as in `.name store`. -/
def directName? : Command → Option String
  | .store (.address name) _ => some name
  | _ => none

end Command

namespace Genome

/-- The expressions of all bodies, in order. -/
def expressions (genome : Genome) : List Command :=
  genome.bodies.flatMap Command.expressions

/-- Some expression stores under the plain name. -/
def StoresDirectly (genome : Genome) (name : String) : Prop :=
  ∃ command ∈ genome.expressions, command.directName? = some name

/-- Some expression stores under an address that is not a plain name. -/
def StoresComputed (genome : Genome) : Prop :=
  ∃ command ∈ genome.expressions, command.isStore = true ∧ command.directName? = none

instance (genome : Genome) (name : String) : Decidable (genome.StoresDirectly name) :=
  inferInstanceAs (Decidable (∃ command ∈ genome.expressions, _))

instance (genome : Genome) : Decidable genome.StoresComputed :=
  inferInstanceAs (Decidable (∃ command ∈ genome.expressions, _))

end Genome

namespace Grammar

/-- A phrase makes no writes. -/
theorem Phrase.writes_command (phrase : Phrase) (s : Store) : phrase.command.writes s = [] := by
  induction phrase generalizing s with
  | leaf operand => cases operand <;> simp [Phrase.command, Leaf.command, Command.writes]
  | combine lhs rhs op ihl ihr => rw [Phrase.command, Command.writes, ihl, ihr, List.append_nil]

/-- A statement makes one write, under the text of the operand of its target. -/
theorem Statement.writes_command (statement : Statement) (s : Store) :
    statement.command.writes s =
      [((statement.target.command.eval s).1.display,
        (statement.value.command.eval s).1.finish)] := by
  rw [Statement.command, Command.writes_store, Phrase.writes_command, Phrase.writes_command,
    statement.target.store_eval_command]
  rfl

/-- A phrase that is an address evaluates to its name, and any other phrase to a number. -/
theorem Phrase.operand_cases (phrase : Phrase) (s : Store) :
    (∃ name : Name, phrase.command = .address name.text ∧
      (phrase.command.eval s).1 = .text name.text) ∨
    (∀ name, phrase.command ≠ .address name) ∧ ∃ value, (phrase.command.eval s).1 = .number value := by
  cases phrase with
  | leaf operand =>
    cases operand with
    | number literal value spelled =>
      exact .inr ⟨by simp [Phrase.command, Leaf.command], value, by simp [Phrase.command, Leaf.command]⟩
    | read name =>
      exact .inr ⟨by simp [Phrase.command, Leaf.command], s.get name.text,
        by simp [Phrase.command, Leaf.command]⟩
    | address name => exact .inl ⟨name, rfl, by simp [Phrase.command, Leaf.command]⟩
  | combine lhs rhs op =>
    exact .inr ⟨by simp [Phrase.command], _, Phrase.eval_combine lhs rhs op s⟩

/-- The target of a statement is a plain name, or its operand is a number. -/
theorem Statement.target_cases (statement : Statement) (s : Store) :
    (∃ name : Name, statement.command.directName? = some name.text ∧
      (statement.target.command.eval s).1 = .text name.text) ∨
    statement.command.directName? = none ∧
      ∃ value, (statement.target.command.eval s).1 = .number value := by
  rcases statement.target.operand_cases s with ⟨name, hname, hplace⟩ | ⟨hcomputed, hplace⟩
  · refine .inl ⟨name, ?_, hplace⟩
    rw [Statement.command, hname, Command.directName?]
  · refine .inr ⟨?_, hplace⟩
    unfold Command.directName?
    split
    next name value hstore => exact absurd (Command.store.inj hstore).1 (hcomputed name)
    next => rfl

end Grammar

namespace Command

/-- An expression of a script that stores is a statement, and any other writes nothing. -/
theorem IsExpression.statement_or_pure {command : Command} (h : command.IsExpression) :
    (∃ statement : Statement, command = statement.command) ∨
      command.directName? = none ∧ ∀ s, (command.eval s).2 = s ∧ command.writes s = [] := by
  by_cases hstore : command.isStore = true
  · obtain ⟨statement, hcommand, _⟩ := exists_statement_of_isExpression h hstore
    exact .inl ⟨statement, hcommand.symm⟩
  · rw [Bool.not_eq_true] at hstore
    obtain ⟨shallow, rfl, _⟩ := exists_shallowPhrase_of_isExpression h hstore
    have hname : shallow.phrase.command.directName? = none := by
      unfold directName?
      split
      next heq => simp [heq, isStore] at hstore
      · rfl
    exact .inr ⟨hname, fun s =>
      ⟨shallow.phrase.store_eval_command s, shallow.phrase.writes_command s⟩⟩

/-- An expression of a script writes under an identifier that it names plainly, or it computes
its address and writes under a numeral. -/
theorem IsExpression.name_of_mem_writes {command : Command} (h : command.IsExpression) {s : Store}
    {entry : Store.Entry} (hentry : entry ∈ command.writes s) :
    (Identifier.isIdentifier entry.1 = true ∧ command.directName? = some entry.1) ∨
      (∃ value, entry.1 = Numeral.render value) ∧
        command.isStore = true ∧ command.directName? = none := by
  rcases h.statement_or_pure with ⟨statement, rfl⟩ | ⟨_, hpure⟩
  · rw [statement.writes_command, List.mem_singleton] at hentry
    subst hentry
    rcases statement.target_cases s with ⟨name, hname, hplace⟩ | ⟨hname, value, hplace⟩
    · rw [hplace]
      exact .inl ⟨name.isIdentifier_text, hname⟩
    · rw [hplace]
      exact .inr ⟨⟨value, rfl⟩, rfl, hname⟩
  · rw [(hpure s).2] at hentry
    exact absurd hentry List.not_mem_nil

/-- An expression of a script writes under the name that it names plainly. -/
theorem IsExpression.exists_mem_writes {command : Command} (h : command.IsExpression) {name : String}
    (hname : command.directName? = some name) (s : Store) :
    ∃ value, (name, value) ∈ command.writes s := by
  rcases h.statement_or_pure with ⟨statement, rfl⟩ | ⟨hnone, _⟩
  · rcases statement.target_cases s with ⟨plain, hplain, hplace⟩ | ⟨hnone, _⟩
    · obtain rfl : plain.text = name := Option.some.inj (hplain.symm.trans hname)
      rw [statement.writes_command, hplace]
      exact ⟨_, List.mem_singleton_self _⟩
    · simp [hnone] at hname
  · simp [hnone] at hname

end Command

namespace Genome

/-- Every write of a canonical genome is a write of one of its expressions. -/
theorem Canonical.exists_of_mem_writes {genome : Genome} (h : genome.Canonical) {cycles : Nat}
    {store : Store} {entry : Store.Entry} (hentry : entry ∈ genome.writes cycles store) :
    ∃ command ∈ genome.expressions, command.IsExpression ∧ ∃ s, entry ∈ command.writes s := by
  obtain ⟨body, hbody, s, hwrites⟩ := Genome.exists_of_mem_writes hentry
  obtain ⟨inner, rfl, hinner, _⟩ := h body hbody
  rw [Command.writes] at hwrites
  obtain ⟨command, hcommand, t, ht⟩ := Command.exists_of_mem_writesAll hwrites
  exact ⟨command, List.mem_flatMap.mpr ⟨_, hbody, hcommand⟩, hinner command hcommand, t, ht⟩

/-- A cycle of a canonical genome writes under every plain name that it stores. -/
theorem Canonical.exists_mem_writes {genome : Genome} (h : genome.Canonical) {name : String}
    (hname : genome.StoresDirectly name) (cycles : Nat) (store : Store) :
    ∃ value, (name, value) ∈ genome.writes (cycles + 1) store := by
  obtain ⟨command, hcommand, hdirect⟩ := hname
  obtain ⟨body, hbody, hinside⟩ := List.mem_flatMap.mp hcommand
  obtain ⟨inner, rfl, hinner, _⟩ := h body hbody
  obtain ⟨s, hs⟩ := Command.exists_writes_subset_writesAll hbody store
  obtain ⟨t, ht⟩ := Command.exists_writes_subset_writesAll hinside s
  obtain ⟨value, hvalue⟩ := (hinner command hinside).exists_mem_writes hdirect t
  refine ⟨value, List.mem_append_left _ (hs ?_)⟩
  rw [Command.writes]
  exact ht hvalue

/-- What a genome that is read from a source does to the names of a store, over any number of
cycles. No name is taken away. A name keeps its presence and its value unless it is an
identifier that is stored plainly, or a numeral while some address is computed. And after a
cycle every name that is stored plainly is present. -/
theorem runCycles_frame {source : String} {genome : Genome} (h : ofSource source = .ok genome)
    (store : Store) (cycles : Nat) :
    (∀ name, store.contains name = true → (genome.runCycles cycles store).contains name = true) ∧
      (∀ name, ¬(Identifier.isIdentifier name = true ∧ genome.StoresDirectly name) →
        ¬((∃ value, name = Numeral.render value) ∧ genome.StoresComputed) →
        (genome.runCycles cycles store).contains name = store.contains name ∧
          (genome.runCycles cycles store).get name = store.get name) ∧
      (1 ≤ cycles → ∀ name, genome.StoresDirectly name →
        (genome.runCycles cycles store).contains name = true) := by
  have hcanonical := canonical_of_ofSource h
  rw [genome.runCycles_eq_setAll]
  refine ⟨?_, ?_, ?_⟩
  · intro name hname
    rw [Store.contains_setAll, hname, Bool.or_true]
  · intro name hplain hcomputed
    have hkept : (store.setAll (genome.writes cycles store)).get? name = store.get? name := by
      apply Store.get?_setAll_of_not_mem
      intro value hvalue
      -- A write under the name would make it one of the two kinds of names that are excepted.
      obtain ⟨command, hcommand, hexpression, s, hs⟩ := hcanonical.exists_of_mem_writes hvalue
      rcases hexpression.name_of_mem_writes hs with ⟨hidentifier, hdirect⟩ | ⟨hnumeral, hstores⟩
      · exact hplain ⟨hidentifier, command, hcommand, hdirect⟩
      · exact hcomputed ⟨hnumeral, command, hcommand, hstores⟩
    exact ⟨congrArg Option.isSome hkept, congrArg (Option.getD · 0) hkept⟩
  · intro hcycles name hname
    obtain ⟨earlier, rfl⟩ := Nat.exists_eq_add_of_le' hcycles
    rw [Store.contains_setAll,
      Store.contains_ofList_iff.mpr (hcanonical.exists_mem_writes hname earlier store), Bool.true_or]

/-- With a computed address, a numeral with a leading zero is still out of reach, while the name
that is stored plainly is present after the cycles. -/
theorem runCycles_frame_leading_zero :
    ∃ genome, ofSource "start 5 .x store 3 *.x 2 add store stop" = .ok genome ∧
      genome.StoresComputed ∧
      (genome.runCycles 4 (.ofList [("07", 1), ("7", 1)])).contains "07" = true ∧
      (genome.runCycles 4 (.ofList [("07", 1), ("7", 1)])).get "07" = 1 ∧
      (genome.runCycles 4 (.ofList [("07", 1), ("7", 1)])).contains "x" = true := by
  have hread : ofSource "start 5 .x store 3 *.x 2 add store stop" =
      .ok ⟨[.sequence [.store (.address "x") (.number 5),
        .store (.binary .add (.read "x") (.number 2)) (.number 3)]]⟩ := by decide +kernel
  have hnumeral : ¬∃ value, "07" = Numeral.render value := by
    rintro ⟨value, heq⟩
    have hvalue := Numeral.readValue_render value
    rw [← heq] at hvalue
    obtain rfl : (7 : Value) = value := Except.ok.inj hvalue
    exact absurd heq (by decide)
  obtain ⟨-, hkept, hpresent⟩ := runCycles_frame hread (.ofList [("07", 1), ("7", 1)]) 4
  have hzero := hkept "07" (by decide) fun hcomputed => hnumeral hcomputed.1
  exact ⟨_, hread, by decide, hzero.1, hzero.2, hpresent (by decide) "x" (by decide)⟩

end Genome

end GenomeScript

import GenomeScript.Proofs.Frame

/-!
# Computed addresses are write-only

A store command with a computed address writes under a numeral, and no script can read a
numeral back: reads name identifiers, and no numeral is one. An expression that does not store
changes nothing at all. So both can be left out of every body, and the identifiers hold the
same values after any number of cycles. The two runs go through different stores; what they
keep in common is what the stores hold under identifiers.
-/

namespace GenomeScript

open Grammar

/-- Whether a command stores under a plain name. -/
def Command.isDirect (command : Command) : Bool := command.directName?.isSome

/-- A body without the expressions that do not store under a plain name. -/
def Command.keepDirect : Command → Command
  | .sequence commands => .sequence (commands.filter isDirect)
  | command => command

/-- A genome without the expressions that do not store under a plain name. -/
def Genome.keepDirect (genome : Genome) : Genome :=
  ⟨genome.bodies.map Command.keepDirect⟩

/-- No numeral is an identifier: it begins with a digit or a sign. -/
theorem isIdentifier_render (value : Value) : Identifier.isIdentifier (Numeral.render value) = false := by
  rw [Bool.eq_false_iff]
  intro h
  obtain ⟨name, hname⟩ := accepts_iff.mp h
  rw [Numeral.render, String.toList_ofList, ← Numeral.Literal.chars_ofInt] at hname
  exact literal_chars_ne_name _ name hname.symm

namespace Store

/-- Two stores hold the same under every identifier. -/
def SameIdentifiers (s t : Store) : Prop :=
  ∀ name, Identifier.isIdentifier name = true → s.get? name = t.get? name

/-- The same write to both stores keeps them the same. -/
theorem SameIdentifiers.set {s t : Store} (h : s.SameIdentifiers t) (name : String) (value : Value) :
    (s.set name value).SameIdentifiers (t.set name value) := by
  intro other hother
  rw [get?_set, get?_set, h other hother]

/-- A write under a numeral is not seen among the identifiers. -/
theorem SameIdentifiers.set_render {s t : Store} (h : s.SameIdentifiers t) (number value : Value) :
    (s.set (Numeral.render number) value).SameIdentifiers t := by
  intro other hother
  have hne : other ≠ Numeral.render number := by
    rintro rfl
    exact Bool.false_ne_true ((isIdentifier_render number).symm.trans hother)
  rw [get?_set_of_ne _ hne, h other hother]

end Store

namespace Grammar

/-- A phrase reads identifiers only. -/
theorem Phrase.eval_congr {s t : Store} (h : s.SameIdentifiers t) (phrase : Phrase) :
    (phrase.command.eval s).1 = (phrase.command.eval t).1 := by
  induction phrase with
  | leaf operand =>
    cases operand with
    | number literal value spelled => simp [Phrase.command, Leaf.command]
    | read name => simp [Phrase.command, Leaf.command, Store.get, h name.text name.isIdentifier_text]
    | address name => simp [Phrase.command, Leaf.command]
  | combine lhs rhs op ihl ihr => rw [Phrase.eval_combine, Phrase.eval_combine, ihl, ihr]

end Grammar

namespace Command

/-- An expression that stores under a plain name does the same in both stores. -/
theorem IsExpression.sameIdentifiers_of_direct {command : Command} (h : command.IsExpression)
    (hdirect : command.isDirect = true) {s t : Store} (hst : s.SameIdentifiers t) :
    (command.eval s).2.SameIdentifiers (command.eval t).2 := by
  rcases h.statement_or_pure with ⟨statement, rfl⟩ | ⟨hnone, _⟩
  · rw [statement.eval_command, statement.eval_command, statement.target.eval_congr hst,
      statement.value.eval_congr hst]
    exact hst.set _ _
  · simp [isDirect, hnone] at hdirect

/-- Any other expression changes nothing under identifiers. -/
theorem IsExpression.sameIdentifiers_of_not_direct {command : Command} (h : command.IsExpression)
    (hdirect : command.isDirect = false) {s t : Store} (hst : s.SameIdentifiers t) :
    (command.eval s).2.SameIdentifiers t := by
  rcases h.statement_or_pure with ⟨statement, rfl⟩ | ⟨_, hpure⟩
  · rcases statement.target_cases s with ⟨name, hname, _⟩ | ⟨_, number, hplace⟩
    · simp [isDirect, hname] at hdirect
    · rw [statement.eval_command, hplace]
      exact hst.set_render number _
  · rw [(hpure s).1]
    exact hst

/-- Expressions in order, with and without those that do not store under a plain name. -/
theorem sameIdentifiers_filter {commands : List Command} (h : ∀ command ∈ commands, command.IsExpression)
    (last last' : Operand) {s t : Store} (hst : s.SameIdentifiers t) :
    (evalAll last commands s).2.SameIdentifiers
      (evalAll last' (commands.filter isDirect) t).2 := by
  induction commands generalizing last last' s t with
  | nil => simpa using hst
  | cons command commands ih =>
    have hcommand := h command List.mem_cons_self
    have hcommands : ∀ other ∈ commands, other.IsExpression :=
      fun other hother => h other (List.mem_cons_of_mem _ hother)
    rw [List.filter_cons, evalAll_cons]
    cases hdirect : command.isDirect with
    | true =>
      rw [if_pos rfl, evalAll_cons]
      exact ih hcommands _ _ (hcommand.sameIdentifiers_of_direct hdirect hst)
    | false =>
      -- Only the run with all the expressions takes a step here.
      rw [if_neg Bool.false_ne_true]
      exact ih hcommands _ _ (hcommand.sameIdentifiers_of_not_direct hdirect hst)

end Command

namespace Genome

/-- One cycle of both genomes keeps the stores the same under identifiers. -/
theorem Canonical.sameIdentifiers_run {genome : Genome} (h : genome.Canonical) {s t : Store}
    (hst : s.SameIdentifiers t) : (genome.run s).SameIdentifiers (genome.keepDirect.run t) := by
  obtain ⟨bodies⟩ := genome
  induction bodies generalizing s t with
  | nil => exact hst
  | cons body bodies ih =>
    obtain ⟨inner, rfl, hinner, _⟩ := h body List.mem_cons_self
    have hbodies : Canonical ⟨bodies⟩ := fun other hother => h other (List.mem_cons_of_mem _ hother)
    have hbody : ((Command.sequence inner).run s).2.SameIdentifiers
        ((Command.sequence inner).keepDirect.run t).2 := by
      rw [Command.keepDirect, Command.run, Command.run, Command.eval_sequence, Command.eval_sequence]
      exact Command.sameIdentifiers_filter hinner _ _ hst
    exact ih hbody hbodies

/-- Any number of cycles of both genomes keeps the stores the same under identifiers. -/
theorem Canonical.sameIdentifiers_runCycles {genome : Genome} (h : genome.Canonical) (cycles : Nat)
    {s t : Store} (hst : s.SameIdentifiers t) :
    (genome.runCycles cycles s).SameIdentifiers (genome.keepDirect.runCycles cycles t) := by
  induction cycles generalizing s t with
  | zero => exact hst
  | succ cycles ih => exact ih (h.sameIdentifiers_run hst)

/-- A genome that is read from a source and the same genome without the expressions that do not
store under a plain name agree on the presence and the value of every identifier, from any
store and after any number of cycles. -/
theorem runCycles_keepDirect {source : String} {genome : Genome} (h : ofSource source = .ok genome)
    (store : Store) (cycles : Nat) {name : String} (hname : Identifier.isIdentifier name = true) :
    (genome.keepDirect.runCycles cycles store).contains name =
        (genome.runCycles cycles store).contains name ∧
      (genome.keepDirect.runCycles cycles store).get name =
        (genome.runCycles cycles store).get name := by
  have hsame := (canonical_of_ofSource h).sameIdentifiers_runCycles cycles
    (fun _ _ => rfl : store.SameIdentifiers store) name hname
  exact ⟨congrArg Option.isSome hsame.symm, congrArg (Option.getD · 0) hsame.symm⟩

/-- The second statement writes under the number of cycles run so far, and the closing phrase adds
that number to itself. Only the first statement is kept, and `x` is the same without the others. -/
theorem runCycles_keepDirect_counter :
    ∃ genome, ofSource "start *.x 1 add .x store 9 *.x store *.x *.x add stop" = .ok genome ∧
      genome.keepDirect = ⟨[.sequence [.store (.address "x") (.binary .add (.read "x") (.number 1))]]⟩ ∧
      Identifier.isIdentifier "x" = true ∧
      (genome.keepDirect.runCycles 3 (.ofList [("2", 7)])).contains "x" =
        (genome.runCycles 3 (.ofList [("2", 7)])).contains "x" ∧
      (genome.keepDirect.runCycles 3 (.ofList [("2", 7)])).get "x" =
        (genome.runCycles 3 (.ofList [("2", 7)])).get "x" := by
  have hread : ofSource "start *.x 1 add .x store 9 *.x store *.x *.x add stop" =
      .ok ⟨[.sequence [.store (.address "x") (.binary .add (.read "x") (.number 1)),
        .store (.read "x") (.number 9), .binary .add (.read "x") (.read "x")]]⟩ := by decide +kernel
  have hname : Identifier.isIdentifier "x" = true := by decide
  exact ⟨_, hread, by decide, hname, runCycles_keepDirect hread (.ofList [("2", 7)]) 3 hname⟩

end Genome

end GenomeScript

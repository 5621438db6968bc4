import GenomeScript.Proofs.Noninterference
import GenomeScript.Proofs.WriteOnly

/-!
# Independent bodies commute

Two bodies may run in either order if neither stores under a plain name that the other reads or
stores, and if no more than one of them computes an address. The names that are written under
computed addresses are not known before the run, but they are numerals, so no script reads them or
stores under them plainly.

For any two commands it is enough that neither writes what the other reads and that they write under
different names. Then each makes the same writes before and after the other, and those writes can be
exchanged, since a store does not remember in which order its names were written.
-/

namespace GenomeScript

open Grammar

namespace Store

/-- Writes under different names can be exchanged. -/
theorem setAll_comm (store : Store) {xs ys : List Entry} (h : ∀ x ∈ xs, ∀ y ∈ ys, x.1 ≠ y.1) :
    (store.setAll xs).setAll ys = (store.setAll ys).setAll xs := by
  refine ext_get? fun name => ?_
  rw [get?_setAll, get?_setAll, get?_setAll, get?_setAll]
  by_cases hxs : ∃ value, (name, value) ∈ xs
  · obtain ⟨value, hvalue⟩ := hxs
    have hys : ∀ other, (name, other) ∉ ys := fun other hother => h _ hvalue _ hother rfl
    rw [get?_ofList_of_not_mem hys, Option.none_or, Option.none_or]
  · rw [get?_ofList_of_not_mem (not_exists.mp hxs), Option.none_or, Option.none_or]

end Store

namespace Command

/-- The name that a command reads by itself. -/
def readName? : Command → Option String
  | .read name => some name
  | _ => none

/-- The names that are read anywhere in a command. -/
def readNames (command : Command) : List String :=
  (command :: command.inside).filterMap readName?

/-- The plain names under which the expressions of a body store. -/
def directNames (body : Command) : List String :=
  body.expressions.filterMap directName?

/-- Whether some expression of a body stores under an address that is not a plain name. -/
def computesAddress (body : Command) : Bool :=
  body.expressions.any fun command => command.isStore && command.directName?.isNone

/-- What one body stores under plain names, another neither reads nor stores. -/
def Spares (first second : Command) : Prop :=
  ∀ name ∈ first.directNames, name ∉ second.readNames ∧ name ∉ second.directNames

/-- Bodies that spare each other and do not both compute addresses. -/
def Independent (first second : Command) : Prop :=
  first.Spares second ∧ second.Spares first ∧
    ¬(first.computesAddress = true ∧ second.computesAddress = true)

instance (first second : Command) : Decidable (first.Spares second) :=
  inferInstanceAs (Decidable (∀ name ∈ first.directNames, _))

instance (first second : Command) : Decidable (first.Independent second) :=
  inferInstanceAs (Decidable (_ ∧ _))

/-- A name is read where a read of it stands. -/
theorem mem_readNames_iff {command : Command} {name : String} :
    name ∈ command.readNames ↔ read name ∈ command :: command.inside := by
  rw [readNames, List.mem_filterMap]
  constructor
  · intro ⟨part, hpart, hname⟩
    cases part with
    | read other =>
      obtain rfl := Option.some.inj hname
      exact hpart
    | _ => cases hname
  · intro hread
    exact ⟨_, hread, rfl⟩

/-- Writes under names that a command does not read change neither its operand nor its own writes. -/
theorem eval_setAll_of_unread {command : Command} {entries : List Store.Entry}
    (h : ∀ entry ∈ entries, entry.1 ∉ command.readNames) (s : Store) :
    (command.eval (s.setAll entries)).1 = (command.eval s).1 ∧
      command.writes (s.setAll entries) = command.writes s := by
  apply eval_of_readAlike
  intro name hname
  have hunwritten : ∀ value, (name, value) ∉ entries := fun value hvalue =>
    h _ hvalue (mem_readNames_iff.mpr hname)
  rw [Store.get, Store.get, Store.get?_setAll_of_not_mem hunwritten]

/-- Commands of any form commute if neither writes what the other reads and they write under
different names. -/
theorem eval_comm {first second : Command} {s : Store}
    (hfirst : ∀ entry ∈ first.writes s, entry.1 ∉ second.readNames)
    (hsecond : ∀ entry ∈ second.writes s, entry.1 ∉ first.readNames)
    (hapart : ∀ x ∈ first.writes s, ∀ y ∈ second.writes s, x.1 ≠ y.1) :
    (second.eval (first.eval s).2).2 = (first.eval (second.eval s).2).2 ∧
      (first.eval (second.eval s).2).1 = (first.eval s).1 ∧
      (second.eval (first.eval s).2).1 = (second.eval s).1 := by
  obtain ⟨hfirstOperand, hfirstWrites⟩ := eval_setAll_of_unread hsecond s
  obtain ⟨hsecondOperand, hsecondWrites⟩ := eval_setAll_of_unread hfirst s
  rw [first.store_eval s, second.store_eval s]
  refine ⟨?_, hfirstOperand, hsecondOperand⟩
  rw [store_eval, store_eval, hfirstWrites, hsecondWrites]
  exact s.setAll_comm hapart

/-- What stands inside commands stands inside one of them. -/
theorem exists_of_mem_insideAll {commands : List Command} {part : Command}
    (h : part ∈ insideAll commands) : ∃ command ∈ commands, part ∈ command :: command.inside := by
  induction commands with
  | nil => simp [insideAll] at h
  | cons first commands ih =>
    rw [insideAll, List.mem_append] at h
    rcases h with hfirst | hlater
    · exact ⟨first, List.mem_cons_self, hfirst⟩
    · obtain ⟨command, hcommand, hpart⟩ := ih hlater
      exact ⟨command, List.mem_cons_of_mem _ hcommand, hpart⟩

section Body

variable {inner others : List Command} (hinner : ∀ command ∈ inner, command.IsExpression)
  (hothers : ∀ command ∈ others, command.IsExpression)

include hinner

/-- A body of a script reads identifiers only. -/
theorem isIdentifier_of_mem_readNames {name : String} (h : name ∈ (sequence inner).readNames) :
    Identifier.isIdentifier name = true := by
  have hread := mem_readNames_iff.mp h
  rw [inside, List.mem_cons] at hread
  obtain ⟨command, hcommand, hpart⟩ := exists_of_mem_insideAll (hread.resolve_left nofun)
  exact (hinner command hcommand).identifiers _ hpart name rfl

/-- A body of a script writes under the identifiers that it stores plainly, and under numerals if it
computes an address. -/
theorem name_of_mem_writes_sequence {s : Store} {entry : Store.Entry}
    (h : entry ∈ (sequence inner).writes s) :
    (Identifier.isIdentifier entry.1 = true ∧ entry.1 ∈ (sequence inner).directNames) ∨
      (∃ value, entry.1 = Numeral.render value) ∧ (sequence inner).computesAddress = true := by
  rw [writes] at h
  obtain ⟨command, hcommand, t, ht⟩ := exists_of_mem_writesAll h
  rcases (hinner command hcommand).name_of_mem_writes ht with ⟨hname, hdirect⟩ | ⟨hname, hstore, hnone⟩
  · exact .inl ⟨hname, List.mem_filterMap.mpr ⟨command, hcommand, hdirect⟩⟩
  · exact .inr ⟨hname, List.any_eq_true.mpr ⟨command, hcommand, by simp [hstore, hnone]⟩⟩

include hothers

/-- A body that spares another writes nothing that the other reads. -/
theorem Spares.unread (h : (sequence inner).Spares (sequence others)) {s : Store} :
    ∀ entry ∈ (sequence inner).writes s, entry.1 ∉ (sequence others).readNames := by
  intro entry hentry hread
  rcases name_of_mem_writes_sequence hinner hentry with ⟨_, hdirect⟩ | ⟨⟨value, hnumeral⟩, _⟩
  · exact (h entry.1 hdirect).1 hread
  · have hname := isIdentifier_of_mem_readNames hothers hread
    rw [hnumeral, isIdentifier_render] at hname
    cases hname

/-- Independent bodies write under different names. -/
theorem Independent.names_ne (h : (sequence inner).Independent (sequence others)) {s : Store} :
    ∀ x ∈ (sequence inner).writes s, ∀ y ∈ (sequence others).writes s, x.1 ≠ y.1 := by
  obtain ⟨hspares, _, hcomputed⟩ := h
  intro x hx y hy heq
  rcases name_of_mem_writes_sequence hinner hx with ⟨hx, hdirect⟩ | ⟨⟨value, hx⟩, hfirst⟩
  · rcases name_of_mem_writes_sequence hothers hy with ⟨_, hother⟩ | ⟨⟨value, hy⟩, _⟩
    · exact (hspares x.1 hdirect).2 (heq ▸ hother)
    · rw [heq, hy, isIdentifier_render] at hx
      cases hx
  · rcases name_of_mem_writes_sequence hothers hy with ⟨hy, _⟩ | ⟨_, hsecond⟩
    · rw [← heq, hx, isIdentifier_render] at hy
      cases hy
    · exact hcomputed ⟨hfirst, hsecond⟩

end Body

end Command

namespace Body

/-- A body that is read is a sequence of expressions. -/
theorem exists_expressions_of_take {tokens rest : List Token} {body : Command}
    (h : take tokens = .ok (body, rest)) :
    ∃ inner, body = .sequence inner ∧ ∀ command ∈ inner, command.IsExpression := by
  obtain ⟨_, block, _, _, rfl⟩ := take_eq_ok_iff_block.mp h
  obtain ⟨inner, hbody, hinner, _⟩ :=
    (Script.canonical_genome ⟨[block]⟩) block.command (List.mem_singleton_self _)
  exact ⟨inner, hbody, hinner⟩

/-- Two bodies that are read from tokens and are independent run in either order to one store, and
each returns the same value before the other and after it. -/
theorem run_comm_of_independent {tokens rest otherTokens otherRest : List Token}
    {first second : Command} (hfirst : take tokens = .ok (first, rest))
    (hsecond : take otherTokens = .ok (second, otherRest)) (h : first.Independent second)
    (store : Store) :
    (second.run (first.run store).2).2 = (first.run (second.run store).2).2 ∧
      (first.run store).1 = (first.run (second.run store).2).1 ∧
      (second.run (first.run store).2).1 = (second.run store).1 := by
  obtain ⟨inner, rfl, hinner⟩ := exists_expressions_of_take hfirst
  obtain ⟨others, rfl, hothers⟩ := exists_expressions_of_take hsecond
  have hunread : ∀ entry ∈ (Command.sequence inner).writes store,
      entry.1 ∉ (Command.sequence others).readNames := h.1.unread hinner hothers
  have hunreadBack : ∀ entry ∈ (Command.sequence others).writes store,
      entry.1 ∉ (Command.sequence inner).readNames := h.2.1.unread hothers hinner
  obtain ⟨hstore, hvalue, hotherValue⟩ :=
    Command.eval_comm hunread hunreadBack (h.names_ne hinner hothers)
  exact ⟨hstore, congrArg Operand.finish hvalue.symm, congrArg Operand.finish hotherValue⟩

/-- The first body stores under the number that it reads from `n`, the second counts `y` up. Both
read `n`, and neither stores what the other reads or stores. -/
theorem run_comm_of_independent_computed :
    ∃ first second : Command,
      take (Token.scan "start 5 *.n store *.n 2 mult .x store stop") = .ok (first, []) ∧
        take (Token.scan "start *.y *.n add .y store stop") = .ok (second, []) ∧
        first.Independent second ∧
        (second.run (first.run (.ofList [("n", 3)])).2).2 =
          (first.run (second.run (.ofList [("n", 3)])).2).2 ∧
        (first.run (.ofList [("n", 3)])).1 = (first.run (second.run (.ofList [("n", 3)])).2).1 ∧
        (second.run (first.run (.ofList [("n", 3)])).2).1 = (second.run (.ofList [("n", 3)])).1 := by
  have hfirst : take (Token.scan "start 5 *.n store *.n 2 mult .x store stop") =
      .ok (.sequence [.store (.read "n") (.number 5),
        .store (.address "x") (.binary .mult (.read "n") (.number 2))], []) := by decide +kernel
  have hsecond : take (Token.scan "start *.y *.n add .y store stop") =
      .ok (.sequence [.store (.address "y") (.binary .add (.read "y") (.read "n"))], []) := by
    decide +kernel
  have hindependent : (Command.sequence [.store (.read "n") (.number 5),
        .store (.address "x") (.binary .mult (.read "n") (.number 2))]).Independent
      (.sequence [.store (.address "y") (.binary .add (.read "y") (.read "n"))]) := by decide
  exact ⟨_, _, hfirst, hsecond, hindependent,
    run_comm_of_independent hfirst hsecond hindependent (.ofList [("n", 3)])⟩

end Body

end GenomeScript

import Mathlib.Data.List.Induction
import GenomeScript.Genome

/-!
# What a run writes

Evaluating a command changes the store by a list of writes, one for each store command that is
reached, in the order in which they are reached. The names and the values of the writes depend
on the store in which the evaluation starts, so the list is computed along with the evaluation.
Every run, of a command, of a cycle or of many cycles, ends in the first store overwritten by
its writes; what it leaves alone and what it adds can then be read off the list.
-/

namespace GenomeScript

namespace Store

/-- Writes in two parts are made one part after the other. -/
theorem setAll_append (store : Store) (xs ys : List Entry) :
    store.setAll (xs ++ ys) = (store.setAll xs).setAll ys := by
  simp [setAll]

/-- The last of several writes prevails over the others. -/
theorem setAll_append_singleton (store : Store) (entries : List Entry) (entry : Entry) :
    store.setAll (entries ++ [entry]) = (store.setAll entries).set entry.1 entry.2 := by
  rw [setAll_append]
  rfl

/-- A name holds what was written under it, or else what it held before. -/
theorem get?_setAll (store : Store) (entries : List Entry) (name : String) :
    (store.setAll entries).get? name = ((ofList entries).get? name).or (store.get? name) := by
  induction entries using List.reverseRecOn with
  | nil => rfl
  | append_singleton entries entry ih =>
    rw [ofList, setAll_append_singleton, setAll_append_singleton, get?_set, get?_set, ih]
    split
    · rfl
    · rfl

/-- A store seeded with entries holds the names of the entries. -/
theorem contains_ofList_iff {entries : List Entry} {name : String} :
    (ofList entries).contains name = true ↔ ∃ value, (name, value) ∈ entries := by
  induction entries using List.reverseRecOn with
  | nil => simp [ofList, setAll, contains]
  | append_singleton entries entry ih =>
    rw [contains] at ih
    rw [ofList, setAll_append_singleton, contains, get?_set, ← ofList]
    by_cases h : name = entry.1
    · rw [if_pos h]
      exact iff_of_true rfl ⟨entry.2, by simp [h]⟩
    · have hne (value : Value) : (name, value) ≠ entry := fun heq => h (congrArg Prod.fst heq)
      simp [if_neg h, ih, hne]

/-- Writing takes no name away, and adds those that are written. -/
theorem contains_setAll (store : Store) (entries : List Entry) (name : String) :
    (store.setAll entries).contains name =
      ((ofList entries).contains name || store.contains name) := by
  rw [contains, get?_setAll, Option.isSome_or]
  rfl

/-- A store seeded with entries holds nothing under other names. -/
theorem get?_ofList_of_not_mem {entries : List Entry} {name : String}
    (h : ∀ value, (name, value) ∉ entries) : (ofList entries).get? name = none := by
  rw [← Option.not_isSome_iff_eq_none]
  intro hsome
  obtain ⟨value, hvalue⟩ := contains_ofList_iff.mp hsome
  exact h value hvalue

/-- A name that is not written holds what it held before. -/
theorem get?_setAll_of_not_mem {store : Store} {entries : List Entry} {name : String}
    (h : ∀ value, (name, value) ∉ entries) : (store.setAll entries).get? name = store.get? name := by
  rw [get?_setAll, get?_ofList_of_not_mem h, Option.none_or]

/-- Names that read alike in two stores read alike after the same writes. -/
theorem get_setAll_congr {s t : Store} {name : String} (h : s.get name = t.get name)
    (entries : List Entry) : (s.setAll entries).get name = (t.setAll entries).get name := by
  rw [get, get, get?_setAll, get?_setAll]
  cases (ofList entries).get? name with
  | none => exact h
  | some value => rfl

end Store

namespace Command

mutual

/-- The writes that evaluating a command makes, in order. -/
def writes : Command → Store → List Store.Entry
  | .number _, _ => []
  | .read _, _ => []
  | .address _, _ => []
  | .store target value, s =>
    let (place, afterTarget) := target.eval s
    let (result, _) := value.eval afterTarget
    target.writes s ++ value.writes afterTarget ++ [(place.display, result.finish)]
  | .binary _ lhs rhs, s => lhs.writes s ++ rhs.writes (lhs.eval s).2
  | .sequence commands, s => writesAll commands s

/-- The writes that evaluating commands in order makes. -/
def writesAll : List Command → Store → List Store.Entry
  | [], _ => []
  | command :: commands, s => command.writes s ++ writesAll commands (command.eval s).2

end

/-- A store command writes once, after what its two sides write. -/
theorem writes_store (target value : Command) (s : Store) :
    (store target value).writes s =
      target.writes s ++ value.writes (target.eval s).2 ++
        [((target.eval s).1.display, (value.eval (target.eval s).2).1.finish)] := by
  simp only [writes]

@[simp] theorem writesAll_nil (s : Store) : writesAll [] s = [] := by
  simp only [writesAll]

@[simp] theorem writesAll_cons (command : Command) (commands : List Command) (s : Store) :
    writesAll (command :: commands) s = command.writes s ++ writesAll commands (command.eval s).2 := by
  simp only [writesAll]

mutual

/-- A command leaves the store overwritten by its writes. -/
theorem store_eval : (command : Command) → (s : Store) →
    (command.eval s).2 = s.setAll (command.writes s)
  | .number _, s => by simp [writes, Store.setAll]
  | .read _, s => by simp [writes, Store.setAll]
  | .address _, s => by simp [writes, Store.setAll]
  | .store target value, s => by
    rw [writes_store, Store.setAll_append_singleton, Store.setAll_append, ← store_eval target s,
      ← store_eval value, eval_store]
  | .binary op lhs rhs, s => by
    rw [writes, Store.setAll_append, ← store_eval lhs s, ← store_eval rhs, eval_binary]
  | .sequence commands, s => by
    rw [writes, eval_sequence, store_evalAll]

/-- Commands in order leave the store overwritten by their writes. -/
theorem store_evalAll : (last : Operand) → (commands : List Command) → (s : Store) →
    (evalAll last commands s).2 = s.setAll (writesAll commands s)
  | last, [], s => by simp [Store.setAll]
  | last, command :: commands, s => by
    rw [evalAll_cons, writesAll_cons, Store.setAll_append, ← store_eval command s,
      store_evalAll (command.eval s).1 commands (command.eval s).2]

end

/-- Every write of commands in order is a write of one of them. -/
theorem exists_of_mem_writesAll {commands : List Command} {s : Store} {entry : Store.Entry}
    (h : entry ∈ writesAll commands s) :
    ∃ command ∈ commands, ∃ t, entry ∈ command.writes t := by
  induction commands generalizing s with
  | nil => simp at h
  | cons command commands ih =>
    rw [writesAll_cons, List.mem_append] at h
    rcases h with hfirst | hlater
    · exact ⟨command, List.mem_cons_self, s, hfirst⟩
    · obtain ⟨other, hother, t, ht⟩ := ih hlater
      exact ⟨other, List.mem_cons_of_mem _ hother, t, ht⟩

/-- Commands in order make the writes of each of them. -/
theorem exists_writes_subset_writesAll {commands : List Command} {command : Command}
    (h : command ∈ commands) (s : Store) : ∃ t, command.writes t ⊆ writesAll commands s := by
  induction commands generalizing s with
  | nil => simp at h
  | cons first commands ih =>
    rw [writesAll_cons]
    rcases List.mem_cons.mp h with rfl | hlater
    · exact ⟨s, List.subset_append_left _ _⟩
    · obtain ⟨t, ht⟩ := ih hlater (first.eval s).2
      exact ⟨t, List.subset_append_of_subset_right _ ht⟩

end Command

namespace Genome

/-- A cycle evaluates the bodies in order. -/
theorem run_eq_evalAll (genome : Genome) (last : Operand) (store : Store) :
    genome.run store = (Command.evalAll last genome.bodies store).2 := by
  obtain ⟨bodies⟩ := genome
  induction bodies generalizing last store with
  | nil => simp
  | cons body bodies ih =>
    rw [run_cons, ih (body.eval store).1, Command.evalAll_cons]
    rfl

/-- The writes of a number of cycles, in order. -/
def writes (genome : Genome) : Nat → Store → List Store.Entry
  | 0, _ => []
  | cycles + 1, store =>
    Command.writesAll genome.bodies store ++ genome.writes cycles (genome.run store)

/-- Cycles leave the store overwritten by their writes. -/
theorem runCycles_eq_setAll (genome : Genome) (cycles : Nat) (store : Store) :
    genome.runCycles cycles store = store.setAll (genome.writes cycles store) := by
  induction cycles generalizing store with
  | zero => rfl
  | succ cycles ih =>
    have hcycle : genome.run store = store.setAll (Command.writesAll genome.bodies store) := by
      rw [genome.run_eq_evalAll (.number 0), Command.store_evalAll]
    rw [runCycles, writes, Store.setAll_append, ← hcycle, ih]

/-- Every write of a number of cycles is a write of one of the bodies. -/
theorem exists_of_mem_writes {genome : Genome} {cycles : Nat} {store : Store} {entry : Store.Entry}
    (h : entry ∈ genome.writes cycles store) :
    ∃ body ∈ genome.bodies, ∃ t, entry ∈ body.writes t := by
  induction cycles generalizing store with
  | zero => simp [writes] at h
  | succ cycles ih =>
    rw [writes, List.mem_append] at h
    rcases h with hfirst | hlater
    · exact Command.exists_of_mem_writesAll hfirst
    · exact ih hlater

end Genome

end GenomeScript

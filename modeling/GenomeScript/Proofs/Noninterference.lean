import GenomeScript.Proofs.Canonical
import GenomeScript.Proofs.Machine
import GenomeScript.Proofs.Writes

/-!
# Names that are not read have no influence

A genome may be built by hand, with stores and sequences anywhere in a tree, also inside the
address of another store. What it does depends only on what its reads find: from two stores
that agree on the names that it reads, every body returns the same value and the same writes
are made, in every cycle. The stores themselves may stay different, under the names that are
neither read nor written.

Evaluation changes the stores that later parts read. The agreement survives that, because both
stores receive the same writes.
-/

namespace GenomeScript

/-- Two stores read alike under each name that is read by one of the given commands itself. -/
def Store.ReadAlike (s t : Store) (parts : List Command) : Prop :=
  ∀ name, Command.read name ∈ parts → s.get name = t.get name

namespace Store.ReadAlike

variable {s t : Store} {parts : List Command}

/-- Fewer commands read fewer names. -/
theorem mono (h : s.ReadAlike t parts) {fewer : List Command} (hsub : fewer ⊆ parts) :
    s.ReadAlike t fewer :=
  fun name hname => h name (hsub hname)

/-- The same writes keep stores reading alike. -/
theorem setAll (h : s.ReadAlike t parts) (entries : List Entry) :
    (s.setAll entries).ReadAlike (t.setAll entries) parts :=
  fun name hname => get_setAll_congr (h name hname) entries

/-- A command that writes the same in both stores keeps them reading alike. -/
theorem eval (h : s.ReadAlike t parts) {command : Command}
    (hwrites : command.writes s = command.writes t) :
    (command.eval s).2.ReadAlike (command.eval t).2 parts := by
  rw [Command.store_eval, Command.store_eval, hwrites]
  exact h.setAll _

end Store.ReadAlike

namespace Command

mutual

/-- A command yields the same operand and makes the same writes in stores that its reads cannot
tell apart. -/
theorem eval_of_readAlike : (command : Command) → {s t : Store} →
    s.ReadAlike t (command :: command.inside) →
      (command.eval s).1 = (command.eval t).1 ∧ command.writes s = command.writes t
  | .number value, s, t, _ => by simp [writes]
  | .read name, s, t, h => by simp [writes, h name List.mem_cons_self]
  | .address name, s, t, _ => by simp [writes]
  | .store target value, s, t, h => by
    have hinside : s.ReadAlike t (target :: target.inside ++ value :: value.inside) :=
      h.mono fun part hpart => List.mem_cons_of_mem _ (by rwa [inside])
    obtain ⟨hplace, hfirst⟩ := eval_of_readAlike target (hinside.mono (List.subset_append_left _ _))
    -- The value is evaluated in the stores that the target leaves, which read alike once more.
    obtain ⟨hresult, hsecond⟩ :=
      eval_of_readAlike value ((hinside.mono (List.subset_append_right _ _)).eval hfirst)
    rw [eval_store, eval_store, writes_store, writes_store, hplace, hresult, hfirst, hsecond]
    exact ⟨rfl, rfl⟩
  | .binary op lhs rhs, s, t, h => by
    have hinside : s.ReadAlike t (lhs :: lhs.inside ++ rhs :: rhs.inside) :=
      h.mono fun part hpart => List.mem_cons_of_mem _ (by rwa [inside])
    obtain ⟨hleft, hfirst⟩ := eval_of_readAlike lhs (hinside.mono (List.subset_append_left _ _))
    obtain ⟨hright, hsecond⟩ :=
      eval_of_readAlike rhs ((hinside.mono (List.subset_append_right _ _)).eval hfirst)
    rw [eval_binary, eval_binary, writes, writes, hleft, hright, hfirst, hsecond]
    exact ⟨rfl, rfl⟩
  | .sequence commands, s, t, h => by
    have hinside : s.ReadAlike t (insideAll commands) :=
      h.mono fun part hpart => List.mem_cons_of_mem _ (by rwa [inside])
    rw [eval_sequence, eval_sequence, writes, writes]
    exact evalAll_of_readAlike (.number 0) commands hinside

/-- So do commands in order. -/
theorem evalAll_of_readAlike : (last : Operand) → (commands : List Command) → {s t : Store} →
    s.ReadAlike t (insideAll commands) →
      (evalAll last commands s).1 = (evalAll last commands t).1 ∧
        writesAll commands s = writesAll commands t
  | last, [], s, t, _ => by simp
  | last, command :: commands, s, t, h => by
    rw [insideAll] at h
    obtain ⟨hoperand, hfirst⟩ := eval_of_readAlike command (h.mono (List.subset_append_left _ _))
    obtain ⟨hlast, hlater⟩ := evalAll_of_readAlike (command.eval t).1 commands
      ((h.mono (List.subset_append_right _ _)).eval hfirst)
    rw [evalAll_cons, evalAll_cons, writesAll_cons, writesAll_cons, hoperand, hlast, hfirst, hlater]
    exact ⟨rfl, rfl⟩

end

end Command

namespace Genome

/-- The values of the bodies in each of a number of cycles, in order. -/
def values (genome : Genome) : Nat → Store → List (List Value)
  | 0, _ => []
  | cycles + 1, store =>
    Machine.bodyValues genome.bodies store :: genome.values cycles (genome.run store)

/-- The bodies of one cycle return the same values in stores that their reads cannot tell apart. -/
theorem bodyValues_of_readAlike {bodies : List Command} {s t : Store}
    (h : s.ReadAlike t (Command.insideAll bodies)) :
    Machine.bodyValues bodies s = Machine.bodyValues bodies t := by
  induction bodies generalizing s t with
  | nil => rfl
  | cons body bodies ih =>
    rw [Command.insideAll] at h
    obtain ⟨hoperand, hwrites⟩ := Command.eval_of_readAlike body (h.mono (List.subset_append_left _ _))
    have hlater := ih ((h.mono (List.subset_append_right _ _)).eval hwrites)
    simp only [Machine.bodyValues, Command.run, hoperand, hlater]

/-- A cycle makes the same writes in stores that its reads cannot tell apart, and leaves them so. -/
theorem run_of_readAlike {genome : Genome} {s t : Store}
    (h : s.ReadAlike t (Command.insideAll genome.bodies)) :
    Command.writesAll genome.bodies s = Command.writesAll genome.bodies t ∧
      (genome.run s).ReadAlike (genome.run t) (Command.insideAll genome.bodies) := by
  have hwrites := (Command.evalAll_of_readAlike (.number 0) genome.bodies h).2
  refine ⟨hwrites, ?_⟩
  rw [genome.run_eq_evalAll (.number 0), genome.run_eq_evalAll (.number 0), Command.store_evalAll,
    Command.store_evalAll, hwrites]
  exact h.setAll _

/-- So do any number of cycles, and each body returns the same value in each of them. -/
theorem cycles_of_readAlike {genome : Genome} (cycles : Nat) {s t : Store}
    (h : s.ReadAlike t (Command.insideAll genome.bodies)) :
    genome.writes cycles s = genome.writes cycles t ∧
      genome.values cycles s = genome.values cycles t := by
  induction cycles generalizing s t with
  | zero => exact ⟨rfl, rfl⟩
  | succ cycles ih =>
    obtain ⟨hwrites, hnext⟩ := run_of_readAlike h
    obtain ⟨hlaterWrites, hlaterValues⟩ := ih hnext
    rw [writes, writes, values, values, hwrites, hlaterWrites, bodyValues_of_readAlike h, hlaterValues]
    exact ⟨rfl, rfl⟩

/-- From two stores that read alike under every name that is read anywhere in a genome, any
number of cycles ends in those stores overwritten by one and the same list of writes, and every
body returns the same value in each cycle. -/
theorem runCycles_eq_setAll_of_reads_eq (genome : Genome) (cycles : Nat) {s t : Store}
    (h : ∀ name, Command.read name ∈ Command.insideAll genome.bodies → s.get name = t.get name) :
    ∃ entries : List Store.Entry,
      genome.runCycles cycles s = s.setAll entries ∧ genome.runCycles cycles t = t.setAll entries ∧
        genome.values cycles s = genome.values cycles t := by
  obtain ⟨hwrites, hvalues⟩ := cycles_of_readAlike cycles h
  refine ⟨genome.writes cycles s, genome.runCycles_eq_setAll cycles s, ?_, hvalues⟩
  rw [hwrites, genome.runCycles_eq_setAll]

/-- The address of a store is itself a store, which writes under a number read from `x`, and the
value changes `x` before it reads it. The two stores differ under names that are not read. -/
theorem runCycles_eq_setAll_of_reads_eq_nested :
    ∃ genome : Genome,
      genome.bodies = [.store (.store (.read "x") (.number 4))
        (.sequence [.store (.address "x") (.number 6), .read "x"])] ∧
      (∀ name, Command.read name ∈ Command.insideAll genome.bodies →
        (Store.ofList [("x", 1), ("y", 2)]).get name = (Store.ofList [("x", 1), ("4", 3)]).get name) ∧
      ∃ entries : List Store.Entry,
        genome.runCycles 2 (.ofList [("x", 1), ("y", 2)]) =
          (Store.ofList [("x", 1), ("y", 2)]).setAll entries ∧
        genome.runCycles 2 (.ofList [("x", 1), ("4", 3)]) =
          (Store.ofList [("x", 1), ("4", 3)]).setAll entries ∧
        genome.values 2 (.ofList [("x", 1), ("y", 2)]) =
          genome.values 2 (.ofList [("x", 1), ("4", 3)]) := by
  have hreads : ∀ name, Command.read name ∈ Command.insideAll
        [.store (.store (.read "x") (.number 4)) (.sequence [.store (.address "x") (.number 6), .read "x"])] →
      (Store.ofList [("x", 1), ("y", 2)]).get name = (Store.ofList [("x", 1), ("4", 3)]).get name := by
    intro name hname
    obtain rfl : name = "x" := by simpa [Command.insideAll, Command.inside] using hname
    decide
  exact ⟨⟨_⟩, rfl, hreads, runCycles_eq_setAll_of_reads_eq _ 2 hreads⟩

end Genome

end GenomeScript

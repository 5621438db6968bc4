import GenomeScript.Proofs.Grammar

/-!
# Depths are heights

The operand stack keeps a depth beside every command. The depth is counted while commands are
combined, one more than the deeper of two, and no command is ever looked into for it. The height of a
command is told by its tree alone. The two agree on every stack that tokens leave, whatever the tokens
are, so the bound on the depths is a bound on the trees that are read.
-/

namespace GenomeScript

open Grammar

namespace Command

mutual

/-- The number of levels of a command; a leaf has one. -/
def height : Command → Nat
  | .number _ => 1
  | .read _ => 1
  | .address _ => 1
  | .store target value => 1 + max target.height value.height
  | .binary _ lhs rhs => 1 + max lhs.height rhs.height
  | .sequence commands => 1 + heights commands

/-- The greatest number of levels among commands. -/
def heights : List Command → Nat
  | [] => 0
  | command :: commands => max command.height (heights commands)

end

/-- An operation is one level above the higher of its two sides. -/
theorem height_binary (op : Operator) (lhs rhs : Command) :
    (binary op lhs rhs).height = 1 + max lhs.height rhs.height := by
  rw [height]

/-- A store is one level above the higher of its value and its target. -/
theorem height_store (target value : Command) :
    (store target value).height = 1 + max value.height target.height := by
  rw [height, Nat.max_comm]

end Command

/-- A leaf is one level high. -/
theorem Grammar.Leaf.height_command (leaf : Leaf) : leaf.command.height = 1 := by
  cases leaf <;> simp [Leaf.command, Command.height]

/-- The tree of a phrase has as many levels as the phrase. -/
theorem Grammar.Phrase.height_command (phrase : Phrase) : phrase.command.height = phrase.height := by
  induction phrase with
  | leaf operand => exact operand.height_command
  | combine lhs rhs op ihl ihr => rw [Phrase.command, Command.height_binary, ihl, ihr, Phrase.height]

namespace Stack

/-- Every command on the stack is as deep as its tree is high. -/
def Measured (stack : Stack) : Prop :=
  ∀ entry ∈ stack, entry.depth = entry.command.height

/-- The empty stack is measured. -/
theorem measured_nil : Measured [] := nofun

/-- A stack is measured if its topmost command and the stack below it are. -/
theorem measured_cons {entry : Entry} {stack : Stack} :
    Measured (entry :: stack) ↔ entry.depth = entry.command.height ∧ Measured stack :=
  List.forall_mem_cons

/-- What two commands on a measured stack would be nested to is the height of their combination. -/
theorem Measured.depth_combine {join : Command → Command → Command} {top below : Entry}
    {stack : Stack} (h : Measured (top :: below :: stack))
    (hjoin : ∀ top below, (join top below).height = 1 + max below.height top.height) :
    1 + max below.depth top.depth = (join top.command below.command).height := by
  obtain ⟨htop, hothers⟩ := measured_cons.mp h
  rw [hjoin, htop, (measured_cons.mp hothers).1]

/-- Two commands of a measured stack are combined to one that is as deep as its tree is high. -/
theorem measured_combine {token : Token} {join : Command → Command → Command} {stack next : Stack}
    (hjoin : ∀ top below, (join top below).height = 1 + max below.height top.height)
    (hstack : Measured stack) (h : combine token join stack = .ok next) : Measured next := by
  obtain ⟨top, below, rest, rfl, _, rfl⟩ := combine_eq_ok_iff.mp h
  obtain ⟨_, hothers⟩ := measured_cons.mp hstack
  exact measured_cons.mpr ⟨hstack.depth_combine hjoin, (measured_cons.mp hothers).2⟩

/-- One token keeps the stack measured. -/
theorem measured_place {stack next : Stack} {token : Token} (hstack : Measured stack)
    (h : stack.place token = .ok next) : Measured next := by
  rcases word_of_place h with ⟨leaf, hword⟩ | ⟨op, hword⟩ | hword
  · rw [place_of_leaf stack hword] at h
    obtain rfl := Except.ok.inj h
    exact measured_cons.mpr ⟨leaf.height_command.symm, hstack⟩
  · rw [place_of_operator stack hword] at h
    exact measured_combine (fun top below => Command.height_binary op below top) hstack h
  · rw [place_of_store stack hword] at h
    exact measured_combine Command.height_store hstack h

/-- Any run of tokens keeps the stack measured. -/
theorem measured_placeAll {stack next : Stack} {tokens : List Token} (hstack : Measured stack)
    (h : stack.placeAll tokens = .ok next) : Measured next := by
  induction tokens generalizing stack with
  | nil => exact Except.ok.inj h ▸ hstack
  | cons token tokens ih =>
    rw [placeAll_cons] at h
    obtain ⟨middle, hplace, hrest⟩ := Except.bind_eq_ok_iff.mp h
    exact ih (measured_place hstack hplace) hrest

end Stack

end GenomeScript

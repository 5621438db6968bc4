import Mathlib.Data.List.Basic
import Mathlib.Data.List.Induction
import GenomeScript.Genome
import GenomeScript.Proofs.Lexicon

/-!
# The grammar of scripts

A phrase is a leaf, or two phrases and an operator. A statement is two phrases and `store`,
the value before the target. A block is `start`, statements, at most one phrase, and `stop`;
a script is a run of blocks. Statements and closing phrases keep to 256 levels.

The trees of the grammar are given as types, so a tree is a derivation of its own words. The
grammar is unambiguous because it can be read from right to left: the last word of a tree
settles its form, and no tree's words end in the words of a different tree. Every level
inherits this from the level below.
-/

namespace GenomeScript.Grammar

/-- An expression without `store`. -/
inductive Phrase where
  | leaf (operand : Leaf)
  | combine (lhs rhs : Phrase) (op : Operator)

namespace Phrase

/-- The words of a phrase. -/
def words : Phrase → List String
  | .leaf operand => [operand.word]
  | .combine lhs rhs op => lhs.words ++ rhs.words ++ [operatorWord op]

/-- The command that a phrase stands for. -/
def command : Phrase → Command
  | .leaf operand => operand.command
  | .combine lhs rhs op => .binary op lhs.command rhs.command

/-- The number of levels; a lone operand has one. -/
def height : Phrase → Nat
  | .leaf _ => 1
  | .combine lhs rhs _ => 1 + max lhs.height rhs.height

end Phrase

/-- A phrase that keeps to 256 levels. -/
@[ext] structure ShallowPhrase where
  phrase : Phrase
  low : phrase.height ≤ 256

/-- A value, a target and `store`. -/
@[ext] structure Statement where
  value : Phrase
  target : Phrase
  low : 1 + max value.height target.height ≤ 256

namespace Statement

/-- The words of a statement. -/
def words (statement : Statement) : List String :=
  statement.value.words ++ statement.target.words ++ ["store"]

/-- The command that a statement stands for. -/
def command (statement : Statement) : Command :=
  .store statement.target.command statement.value.command

end Statement

/-- Statements and at most one closing phrase between `start` and `stop`. -/
@[ext] structure Block where
  statements : List Statement
  closing : Option ShallowPhrase

namespace Block

/-- The words between the delimiters. -/
def inner (block : Block) : List String :=
  block.statements.flatMap Statement.words ++ (block.closing.map (·.phrase.words)).getD []

/-- The words of a block. -/
def words (block : Block) : List String :=
  "start" :: block.inner ++ ["stop"]

/-- The commands of the expressions of a block. -/
def commands (block : Block) : List Command :=
  block.statements.map Statement.command ++ (block.closing.map (·.phrase.command)).toList

/-- The command that a block stands for. -/
def command (block : Block) : Command := .sequence block.commands

end Block

/-- A run of blocks. -/
@[ext] structure Script where
  blocks : List Block

namespace Script

/-- The words of a script. -/
def words (script : Script) : List String := script.blocks.flatMap Block.words

/-- The genome that a script stands for. -/
def genome (script : Script) : Genome := ⟨script.blocks.map Block.command⟩

end Script

/-- The roles of the words of a phrase. -/
def IsPlain (role : Role) : Prop :=
  role = .number ∨ role = .read ∨ role = .address ∨ role = .operator

/-- A phrase uses leaves and operators only. -/
theorem Phrase.isPlain_of_mem_words {phrase : Phrase} {word : String} (h : word ∈ phrase.words) :
    IsPlain (Role.of word) := by
  induction phrase with
  | leaf operand =>
    have hword : word = operand.word := List.mem_singleton.mp h
    rw [hword, Role.of_leaf]
    cases operand <;> simp [Leaf.role, IsPlain]
  | combine lhs rhs op ihl ihr =>
    simp only [Phrase.words, List.mem_append, List.mem_singleton] at h
    rcases h with (hl | hr) | hop
    · exact ihl hl
    · exact ihr hr
    · rw [hop, Role.of_operatorWord]
      simp [IsPlain]

/-- A phrase does not store. -/
theorem Phrase.store_not_mem_words (phrase : Phrase) : "store" ∉ phrase.words := by
  intro h
  have hstore : Role.of "store" = .store := by decide
  have hplain := Phrase.isPlain_of_mem_words h
  simp [IsPlain, hstore] at hplain

/-- Every phrase has a word. -/
theorem Phrase.words_ne_nil (phrase : Phrase) : phrase.words ≠ [] := by
  cases phrase <;> simp [Phrase.words]

/-- No leaf is the word of an operator. -/
theorem Leaf.word_ne_operatorWord (leaf : Leaf) (op : Operator) : leaf.word ≠ operatorWord op := by
  intro h
  have hrole : leaf.role = .operator := by rw [← Role.of_leaf, h, Role.of_operatorWord]
  cases leaf <;> simp [Leaf.role] at hrole

/-- Different operators have different words. -/
theorem operatorWord_injective : Function.Injective operatorWord := by
  intro f g h
  rw [← keyword_eq_operatorWord, ← keyword_eq_operatorWord] at h
  have hf := Operator.ofKeyword?_eq_some_iff.mpr (rfl : f.keyword = f.keyword)
  have hg := Operator.ofKeyword?_eq_some_iff.mpr h
  exact Option.some.inj (hf.symm.trans hg)

/-- A code is suffix free when the words of one tree never end in those of another. -/
def SuffixFree {α : Type} (code : α → List String) : Prop :=
  ∀ (a b : α) (xs ys : List String), xs ++ code a = ys ++ code b → xs = ys ∧ a = b

/-- The words of phrases, read from the right, are those of a prefix notation. -/
theorem suffixFree_phrase : SuffixFree Phrase.words := by
  intro p
  induction p with
  | leaf operand =>
    intro q xs ys h
    cases q with
    | leaf operand' =>
      obtain ⟨hxs, hword⟩ := List.append_inj' h rfl
      exact ⟨hxs, by rw [Leaf.word_injective (List.cons.inj hword).1]⟩
    | combine lhs rhs op =>
      simp only [Phrase.words, ← List.append_assoc] at h
      have hlast := (List.append_inj' h rfl).2
      exact absurd (List.cons.inj hlast).1 (Leaf.word_ne_operatorWord operand op)
  | combine lhs rhs op ihl ihr =>
    intro q xs ys h
    simp only [Phrase.words, ← List.append_assoc] at h
    cases q with
    | leaf operand =>
      have hlast := (List.append_inj' h rfl).2
      exact absurd (List.cons.inj hlast).1.symm (Leaf.word_ne_operatorWord operand op)
    | combine lhs' rhs' op' =>
      simp only [Phrase.words, ← List.append_assoc] at h
      obtain ⟨hfront, hlast⟩ := List.append_inj' h rfl
      obtain ⟨hleft, rfl⟩ := ihr rhs' _ _ hfront
      obtain ⟨hxs, rfl⟩ := ihl lhs' _ _ hleft
      exact ⟨hxs, by rw [operatorWord_injective (List.cons.inj hlast).1]⟩

/-- The last word of a statement is `store`, and the target before it ends the value. -/
theorem suffixFree_statement : SuffixFree Statement.words := by
  intro s t xs ys h
  simp only [Statement.words, ← List.append_assoc] at h
  have hfront := (List.append_inj' h rfl).1
  obtain ⟨hvalue, htarget⟩ := suffixFree_phrase _ _ _ _ hfront
  obtain ⟨hxs, hvalue⟩ := suffixFree_phrase _ _ _ _ hvalue
  exact ⟨hxs, Statement.ext hvalue htarget⟩

/-- Runs of trees of a suffix-free code are determined by their words. -/
theorem SuffixFree.flatMap_injective {α : Type} {code : α → List String} (h : SuffixFree code)
    (hne : ∀ a, code a ≠ []) : Function.Injective fun trees : List α => trees.flatMap code := by
  intro xs
  induction xs using List.reverseRecOn with
  | nil =>
    intro ys heq
    cases ys with
    | nil => rfl
    | cons y ys =>
      have hnil : code y ++ ys.flatMap code = [] := heq.symm
      exact absurd (List.append_eq_nil_iff.mp hnil).1 (hne y)
  | append_singleton xs x ih =>
    intro ys heq
    rcases List.eq_nil_or_concat' ys with rfl | ⟨init, y, rfl⟩
    · have hnil : xs.flatMap code ++ code x = [] := by simpa using heq
      exact absurd (List.append_eq_nil_iff.mp hnil).2 (hne x)
    · have happend : xs.flatMap code ++ code x = init.flatMap code ++ code y := by simpa using heq
      obtain ⟨hrest, rfl⟩ := h x y _ _ happend
      rw [ih hrest]

/-- The last occurrence of a word divides a list in one way only. -/
theorem append_cons_inj_of_not_mem {word : String} {xs ys zs ws : List String} (hzs : word ∉ zs)
    (hws : word ∉ ws) (h : xs ++ word :: zs = ys ++ word :: ws) : xs = ys ∧ zs = ws := by
  rcases List.append_eq_append_iff.mp h with ⟨between, rfl, heq⟩ | ⟨between, rfl, heq⟩
  · cases between with
    | nil => exact ⟨by simp, (List.cons.inj heq).2⟩
    | cons first rest => exact absurd (by simp [(List.cons.inj heq).2]) hzs
  · cases between with
    | nil => exact ⟨by simp, (List.cons.inj heq).2.symm⟩
    | cons first rest => exact absurd (by simp [(List.cons.inj heq).2]) hws

/-- Every statement has a word. -/
theorem Statement.words_ne_nil (statement : Statement) : statement.words ≠ [] := by
  simp [Statement.words]

/-- The words between the delimiters are words of phrases and `store`. -/
theorem Block.exists_phrase_of_mem_inner {block : Block} {word : String} (h : word ∈ block.inner) :
    (∃ phrase : Phrase, word ∈ phrase.words) ∨ word = "store" := by
  rw [Block.inner, List.mem_append] at h
  rcases h with hstatements | hclosing
  · obtain ⟨statement, _, hword⟩ := List.mem_flatMap.mp hstatements
    simp only [Statement.words, List.mem_append, List.mem_singleton] at hword
    rcases hword with (hvalue | htarget) | hstore
    · exact .inl ⟨statement.value, hvalue⟩
    · exact .inl ⟨statement.target, htarget⟩
    · exact .inr hstore
  · cases hc : block.closing with
    | none => simp [hc] at hclosing
    | some closing => exact .inl ⟨closing.phrase, by simpa [hc] using hclosing⟩

/-- Every word between the delimiters continues an expression. -/
theorem Block.role_ne_of_mem_inner {block : Block} {word : String} (h : word ∈ block.inner) :
    Role.of word ≠ .delimiter ∧ Role.of word ≠ .foreign := by
  rcases Block.exists_phrase_of_mem_inner h with ⟨phrase, hphrase⟩ | rfl
  · rcases Phrase.isPlain_of_mem_words hphrase with hrole | hrole | hrole | hrole <;> simp [hrole]
  · decide

/-- Neither delimiter stands inside a block. -/
theorem Block.delimiter_not_mem_inner (block : Block) :
    "start" ∉ block.inner ∧ "stop" ∉ block.inner := by
  have hstart : Role.of "start" = .delimiter := by decide
  have hstop : Role.of "stop" = .delimiter := by decide
  exact ⟨fun h => (Block.role_ne_of_mem_inner h).1 hstart,
    fun h => (Block.role_ne_of_mem_inner h).1 hstop⟩

/-- Statements never end in a phrase: their last word is `store`. -/
theorem flatMap_statement_ne_append_phrase (statements : List Statement) (xs : List String)
    (phrase : Phrase) : statements.flatMap Statement.words ≠ xs ++ phrase.words := by
  intro h
  rcases List.eq_nil_or_concat' statements with rfl | ⟨init, statement, rfl⟩
  · have hnil : xs ++ phrase.words = [] := h.symm
    exact phrase.words_ne_nil (List.append_eq_nil_iff.mp hnil).2
  · have hlast := congrArg List.getLast? h
    rw [List.getLast?_append_of_ne_nil _ phrase.words_ne_nil] at hlast
    have hstore : (init ++ [statement]).flatMap Statement.words =
        init.flatMap Statement.words ++ statement.value.words ++ statement.target.words ++
          ["store"] := by simp [Statement.words]
    rw [hstore, List.getLast?_append_of_ne_nil _ (by simp)] at hlast
    have hmem : "store" ∈ phrase.words := List.mem_of_getLast? hlast.symm
    exact phrase.store_not_mem_words hmem

/-- What stands between the delimiters determines the block. -/
theorem Block.inner_injective : Function.Injective Block.inner := by
  intro a b h
  obtain ⟨ss, closing⟩ := a
  obtain ⟨ts, closing'⟩ := b
  have hstatements := suffixFree_statement.flatMap_injective Statement.words_ne_nil
  cases closing with
  | none =>
    cases closing' with
    | none =>
      have hss : ss = ts := hstatements (by simpa [Block.inner] using h)
      rw [hss]
    | some c =>
      exact absurd (by simpa [Block.inner] using h) (flatMap_statement_ne_append_phrase ss _ c.phrase)
  | some c =>
    cases closing' with
    | none =>
      exact absurd (by simpa [Block.inner] using h.symm)
        (flatMap_statement_ne_append_phrase ts _ c.phrase)
    | some c' =>
      have hwords : ss.flatMap Statement.words ++ c.phrase.words =
          ts.flatMap Statement.words ++ c'.phrase.words := by simpa [Block.inner] using h
      obtain ⟨hss, hphrase⟩ := suffixFree_phrase _ _ _ _ hwords
      rw [hstatements hss, ShallowPhrase.ext hphrase]

/-- The last `start` is where the last block begins. -/
theorem suffixFree_block : SuffixFree Block.words := by
  intro a b xs ys h
  have hinner : xs ++ "start" :: a.inner = ys ++ "start" :: b.inner := by
    have hsplit : (xs ++ "start" :: a.inner) ++ ["stop"] = (ys ++ "start" :: b.inner) ++ ["stop"] := by
      simpa [Block.words] using h
    exact (List.append_inj' hsplit rfl).1
  obtain ⟨hxs, hab⟩ := append_cons_inj_of_not_mem a.delimiter_not_mem_inner.1
    b.delimiter_not_mem_inner.1 hinner
  exact ⟨hxs, Block.inner_injective hab⟩

/-- A script is determined by its words: the grammar is unambiguous. -/
theorem Script.words_injective : Function.Injective Script.words := by
  intro a b h
  exact Script.ext (suffixFree_block.flatMap_injective (by simp [Block.words]) h)

end GenomeScript.Grammar

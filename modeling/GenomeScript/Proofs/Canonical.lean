import GenomeScript.Proofs.Depth
import GenomeScript.Proofs.Parsing
import GenomeScript.Proofs.Words

/-!
# Canonical genomes

A genome built by hand may hold any tree and any names, and its text may read as another
genome or as none. The genomes whose text reads as themselves are the canonical ones: bodies
are sequences of expressions that hold no sequence, store at most at their root, keep to 256
levels and use identifiers only, and every expression but the last of a body stores.

Canonical genomes are the image of the grammar. One direction is that the tree of a script is
canonical; the other builds, for a canonical genome, a script with the genome's own words.
-/

namespace GenomeScript

open Grammar

namespace Command

mutual

/-- The commands strictly inside a command. -/
def inside : Command → List Command
  | .number _ => []
  | .read _ => []
  | .address _ => []
  | .store target value => target :: target.inside ++ value :: value.inside
  | .binary _ lhs rhs => lhs :: lhs.inside ++ rhs :: rhs.inside
  | .sequence commands => insideAll commands

/-- The given commands and all commands inside them. -/
def insideAll : List Command → List Command
  | [] => []
  | command :: commands => command :: command.inside ++ insideAll commands

end

/-- Whether a command is a sequence. -/
def isSequence : Command → Bool
  | .sequence _ => true
  | _ => false

/-- Whether a command is a store. -/
def isStore : Command → Bool
  | .store _ _ => true
  | _ => false

/-- The name that a command reads or addresses by itself. -/
def name? : Command → Option String
  | .read name => some name
  | .address name => some name
  | _ => none

/-- A command that a script can write as one expression. -/
structure IsExpression (command : Command) : Prop where
  noSequence : ∀ part ∈ command :: command.inside, part.isSequence = false
  storeAtRoot : ∀ part ∈ command.inside, part.isStore = false
  low : command.height ≤ 256
  identifiers : ∀ part ∈ command :: command.inside, ∀ name ∈ part.name?,
    Identifier.isIdentifier name = true

end Command

/-- Bodies as scripts write them: sequences of expressions of which all but the last store. -/
def Genome.Canonical (genome : Genome) : Prop :=
  ∀ body ∈ genome.bodies, ∃ inner, body = .sequence inner ∧
    (∀ command ∈ inner, command.IsExpression) ∧ ∀ command ∈ inner.dropLast, command.isStore = true

namespace Command

/-- What holds of every part of a phrase's command: it is no sequence, it does not store, and
its name is an identifier. -/
def IsPure (command : Command) : Prop :=
  ∀ part ∈ command :: command.inside, part.isSequence = false ∧ part.isStore = false ∧
    ∀ name ∈ part.name?, Identifier.isIdentifier name = true

/-- A pure command is one of its own parts. -/
theorem IsPure.root {command : Command} (h : command.IsPure) :
    command.isSequence = false ∧ command.isStore = false ∧
      ∀ name ∈ command.name?, Identifier.isIdentifier name = true :=
  h command List.mem_cons_self

/-- The parts of an arithmetic command are itself and the parts of both sides. -/
theorem isPure_binary {op : Operator} {lhs rhs : Command} :
    (binary op lhs rhs).IsPure ↔ lhs.IsPure ∧ rhs.IsPure := by
  unfold IsPure
  rw [inside, List.forall_mem_cons, List.forall_mem_append]
  simp [isSequence, isStore, name?]

/-- The parts inside a store are those of its target and its value. -/
theorem mem_inside_store {target value part : Command} :
    part ∈ (store target value).inside ↔ part ∈ target :: target.inside ∨ part ∈ value :: value.inside := by
  rw [inside, List.mem_append]

/-- A store is an expression exactly when its two sides are pure and it is low. -/
theorem isExpression_store {target value : Command} :
    (store target value).IsExpression ↔
      target.IsPure ∧ value.IsPure ∧ (store target value).height ≤ 256 := by
  constructor
  · intro h
    have hpart : ∀ part ∈ (store target value).inside, part.isSequence = false ∧ part.isStore = false ∧
        ∀ name ∈ part.name?, Identifier.isIdentifier name = true := by
      intro part hpart
      have hmem := List.mem_cons_of_mem (store target value) hpart
      exact ⟨h.noSequence part hmem, h.storeAtRoot part hpart, h.identifiers part hmem⟩
    exact ⟨fun part ht => hpart part (mem_inside_store.mpr (.inl ht)),
      fun part hv => hpart part (mem_inside_store.mpr (.inr hv)), h.low⟩
  · intro h
    obtain ⟨htarget, hvalue, hlow⟩ := h
    have hpart : ∀ part ∈ (store target value).inside, part.isSequence = false ∧ part.isStore = false ∧
        ∀ name ∈ part.name?, Identifier.isIdentifier name = true := by
      intro part hpart
      exact (mem_inside_store.mp hpart).elim (htarget part) (hvalue part)
    refine ⟨?_, fun part hmem => (hpart part hmem).2.1, hlow, ?_⟩
    · exact List.forall_mem_cons.mpr ⟨rfl, fun part hmem => (hpart part hmem).1⟩
    · exact List.forall_mem_cons.mpr ⟨by simp [name?], fun part hmem => (hpart part hmem).2.2⟩

/-- A command that does not store is an expression exactly when it is pure and low. -/
theorem isExpression_iff_of_isStore_eq_false {command : Command} (h : command.isStore = false) :
    command.IsExpression ↔ command.IsPure ∧ command.height ≤ 256 := by
  constructor
  · intro hexpression
    have hstore : ∀ part ∈ command :: command.inside, part.isStore = false :=
      List.forall_mem_cons.mpr ⟨h, hexpression.storeAtRoot⟩
    exact ⟨fun part hpart => ⟨hexpression.noSequence part hpart, hstore part hpart,
      hexpression.identifiers part hpart⟩, hexpression.low⟩
  · intro hpure
    obtain ⟨hpure, hlow⟩ := hpure
    exact ⟨fun part hpart => (hpure part hpart).1,
      fun part hpart => (hpure part (List.mem_cons_of_mem _ hpart)).2.1, hlow,
      fun part hpart => (hpure part hpart).2.2⟩

end Command

namespace Grammar

/-- The text of a name is an identifier. -/
theorem Name.isIdentifier_text (name : Name) : Identifier.isIdentifier name.text = true := by
  rw [Identifier.isIdentifier, Name.text, String.toList_ofList]
  exact accepts_iff.mpr ⟨name, rfl⟩

/-- An identifier is the text of a name. -/
theorem exists_name {text : String} (h : Identifier.isIdentifier text = true) :
    ∃ name : Name, name.text = text := by
  obtain ⟨name, hname⟩ := accepts_iff.mp h
  exact ⟨name, by rw [Name.text, hname, String.ofList_toList]⟩

/-- The command of a phrase is pure. -/
theorem Phrase.isPure_command (phrase : Phrase) : phrase.command.IsPure := by
  induction phrase with
  | leaf operand =>
    unfold Command.IsPure
    cases operand with
    | number literal value spelled =>
      simp [Phrase.command, Leaf.command, Command.inside, Command.isSequence, Command.isStore,
        Command.name?]
    | read name =>
      simp [Phrase.command, Leaf.command, Command.inside, Command.isSequence, Command.isStore,
        Command.name?, Name.isIdentifier_text]
    | address name =>
      simp [Phrase.command, Leaf.command, Command.inside, Command.isSequence, Command.isStore,
        Command.name?, Name.isIdentifier_text]
  | combine lhs rhs op ihl ihr => exact Command.isPure_binary.mpr ⟨ihl, ihr⟩

/-- A phrase does not store. -/
theorem Phrase.isStore_command (phrase : Phrase) : phrase.command.isStore = false :=
  phrase.isPure_command.root.2.1

/-- The literal that is written for a value stands for the value. -/
def Leaf.ofValue (value : Value) : Leaf :=
  .number (Numeral.Literal.ofInt value.toInt) value (Numeral.Literal.value_ofInt value.toInt)

/-- A pure command is the command of a phrase with the same words. -/
theorem exists_phrase_of_isPure : (command : Command) → command.IsPure →
    ∃ phrase : Phrase, phrase.command = command ∧ phrase.words = command.words
  | .number value, _ => by
    refine ⟨.leaf (.ofValue value), rfl, ?_⟩
    rw [Phrase.words, Command.words, Leaf.word, Leaf.ofValue, Leaf.chars, Numeral.Literal.chars_ofInt]
    rfl
  | .read text, h => by
    obtain ⟨name, rfl⟩ := exists_name (h.root.2.2 text rfl)
    refine ⟨.leaf (.read name), rfl, ?_⟩
    have hword : (Leaf.read name).word = "*." ++ name.text :=
      String.toList_inj.mp (by simp [Leaf.word, Leaf.chars, Name.text])
    rw [Phrase.words, Command.words, hword]
  | .address text, h => by
    obtain ⟨name, rfl⟩ := exists_name (h.root.2.2 text rfl)
    refine ⟨.leaf (.address name), rfl, ?_⟩
    have hword : (Leaf.address name).word = "." ++ name.text :=
      String.toList_inj.mp (by simp [Leaf.word, Leaf.chars, Name.text])
    rw [Phrase.words, Command.words, hword]
  | .binary op lhs rhs, h => by
    obtain ⟨hlhs, hrhs⟩ := Command.isPure_binary.mp h
    obtain ⟨p, rfl, hp⟩ := exists_phrase_of_isPure lhs hlhs
    obtain ⟨q, rfl, hq⟩ := exists_phrase_of_isPure rhs hrhs
    exact ⟨.combine p q op, rfl, by rw [Phrase.words, Command.words, hp, hq, keyword_eq_operatorWord]⟩
  | .store target value, h => absurd h.root.2.1 (by simp [Command.isStore])
  | .sequence commands, h => absurd h.root.1 (by simp [Command.isSequence])

/-- A statement is an expression. -/
theorem Statement.isExpression_command (statement : Statement) : statement.command.IsExpression := by
  refine Command.isExpression_store.mpr ⟨statement.target.isPure_command,
    statement.value.isPure_command, ?_⟩
  rw [Command.height_store, Phrase.height_command, Phrase.height_command]
  exact statement.low

/-- A shallow phrase is an expression. -/
theorem ShallowPhrase.isExpression_command (shallow : ShallowPhrase) :
    shallow.phrase.command.IsExpression := by
  refine (Command.isExpression_iff_of_isStore_eq_false shallow.phrase.isStore_command).mpr
    ⟨shallow.phrase.isPure_command, ?_⟩
  rw [Phrase.height_command]
  exact shallow.low

/-- An expression that stores is the command of a statement with the same words. -/
theorem exists_statement_of_isExpression {command : Command} (h : command.IsExpression)
    (hstore : command.isStore = true) :
    ∃ statement : Statement, statement.command = command ∧ statement.words = command.words := by
  cases command with
  | store target value =>
    obtain ⟨htarget, hvalue, hlow⟩ := Command.isExpression_store.mp h
    obtain ⟨p, rfl, hp⟩ := exists_phrase_of_isPure target htarget
    obtain ⟨q, rfl, hq⟩ := exists_phrase_of_isPure value hvalue
    rw [Command.height_store, Phrase.height_command, Phrase.height_command] at hlow
    exact ⟨⟨q, p, hlow⟩, rfl, by rw [Statement.words, Command.words, hp, hq]; rfl⟩
  | _ => simp [Command.isStore] at hstore

/-- Any other expression is the command of a shallow phrase with the same words. -/
theorem exists_shallowPhrase_of_isExpression {command : Command} (h : command.IsExpression)
    (hstore : command.isStore = false) :
    ∃ shallow : ShallowPhrase, shallow.phrase.command = command ∧
      shallow.phrase.words = command.words := by
  obtain ⟨hpure, hlow⟩ := (Command.isExpression_iff_of_isStore_eq_false hstore).mp h
  obtain ⟨p, rfl, hp⟩ := exists_phrase_of_isPure command hpure
  rw [Phrase.height_command] at hlow
  exact ⟨⟨p, hlow⟩, rfl, hp⟩

/-- Expressions of which all but the last store are the commands of a block with the same words. -/
theorem exists_block_of_isExpression {inner : List Command}
    (h : ∀ command ∈ inner, command.IsExpression)
    (hstore : ∀ command ∈ inner.dropLast, command.isStore = true) :
    ∃ block : Block, block.commands = inner ∧ block.inner = Command.wordsAll inner := by
  induction inner with
  | nil => exact ⟨⟨[], none⟩, rfl, by rw [Command.wordsAll]; rfl⟩
  | cons command inner ih =>
    have hcommand := h command (by simp)
    have hinner : ∀ c ∈ inner, c.IsExpression := fun c hc => h c (by simp [hc])
    by_cases hroot : command.isStore = true
    · obtain ⟨statement, rfl, hwords⟩ := exists_statement_of_isExpression hcommand hroot
      have hlater : ∀ c ∈ inner.dropLast, c.isStore = true := by
        intro c hc
        apply hstore c
        cases inner with
        | nil => simp at hc
        | cons d inner => simp [hc]
      obtain ⟨block, rfl, hblock⟩ := ih hinner hlater
      refine ⟨⟨statement :: block.statements, block.closing⟩, rfl, ?_⟩
      rw [Command.wordsAll, ← hblock, ← hwords]
      simp [Block.inner]
    · -- An expression that does not store can only be the last one.
      have hnil : inner = [] := by
        cases inner with
        | nil => rfl
        | cons d inner => exact absurd (hstore command (by simp)) hroot
      subst hnil
      obtain ⟨shallow, rfl, hwords⟩ :=
        exists_shallowPhrase_of_isExpression hcommand (by simpa using hroot)
      refine ⟨⟨[], some shallow⟩, rfl, ?_⟩
      rw [Command.wordsAll, Command.wordsAll, ← hwords]
      simp [Block.inner]

/-- The tree of a script is canonical. -/
theorem Script.canonical_genome (script : Script) : script.genome.Canonical := by
  intro body hbody
  obtain ⟨block, _, rfl⟩ := List.mem_map.mp hbody
  refine ⟨block.commands, rfl, ?_, ?_⟩
  · intro command hcommand
    rcases List.mem_append.mp hcommand with hstatement | hclosing
    · obtain ⟨statement, _, rfl⟩ := List.mem_map.mp hstatement
      exact statement.isExpression_command
    · obtain ⟨shallow, _, rfl⟩ := Option.map_eq_some_iff.mp (Option.mem_toList.mp hclosing)
      exact shallow.isExpression_command
  · intro command hcommand
    have hstatement : command ∈ block.statements.map Statement.command := by
      unfold Block.commands at hcommand
      cases hc : block.closing with
      | none =>
        rw [hc] at hcommand
        exact List.dropLast_subset _ (by simpa using hcommand)
      | some shallow =>
        rw [hc] at hcommand
        simpa using hcommand
    obtain ⟨statement, _, rfl⟩ := List.mem_map.mp hstatement
    rfl

/-- A canonical genome is the tree of a script with the same words. -/
theorem exists_script_of_canonical {genome : Genome} (h : genome.Canonical) :
    ∃ script : Script, script.genome = genome ∧ script.words = genome.bodies.flatMap Command.words := by
  obtain ⟨bodies⟩ := genome
  induction bodies with
  | nil => exact ⟨⟨[]⟩, rfl, rfl⟩
  | cons body bodies ih =>
    obtain ⟨inner, rfl, hinner, hstore⟩ := h body (by simp)
    obtain ⟨block, rfl, hwords⟩ := exists_block_of_isExpression hinner hstore
    obtain ⟨script, hgenome, hscript⟩ := ih fun body hbody => h body (by simp [hbody])
    have hbodies : script.blocks.map Block.command = bodies := congrArg Genome.bodies hgenome
    refine ⟨⟨block :: script.blocks⟩, ?_, ?_⟩
    · rw [Script.genome, List.map_cons, hbodies]
      rfl
    · have hbody : block.words = (Command.sequence block.commands).words := by
        rw [Block.words, hwords, Command.words]
        rfl
      rw [Script.words, List.flatMap_cons, List.flatMap_cons, hbody]
      exact congrArg _ hscript

/-- The characters that scripts are written with are not blank. -/
theorem isBlank_eq_false_of_visible {c : Char} (hlow : '!' ≤ c) (hhigh : c ≤ '~') :
    Text.isBlank c = false := by
  have hlow' : 33 ≤ c.toNat := hlow
  have hhigh' : c.toNat ≤ 126 := hhigh
  apply Bool.eq_false_iff.mpr
  intro hblank
  simp only [Text.isBlank, Text.blankRanges, List.any_cons, List.any_nil, Bool.or_eq_true,
    Bool.and_eq_true, decide_eq_true_eq, Bool.false_eq_true, or_false] at hblank
  omega

/-- Letters are visible. -/
theorem isBlank_eq_false_of_isLetter {c : Char} (h : IsLetter c) : Text.isBlank c = false := by
  rcases h with ⟨hlow, hhigh⟩ | ⟨hlow, hhigh⟩ | rfl
  · exact isBlank_eq_false_of_visible (Char.le_trans (by decide) hlow) (Char.le_trans hhigh (by decide))
  · exact isBlank_eq_false_of_visible (Char.le_trans (by decide) hlow) (Char.le_trans hhigh (by decide))
  · decide

/-- Digits are visible. -/
theorem isBlank_eq_false_of_digit {c : Char} (h : '0' ≤ c ∧ c ≤ '9') : Text.isBlank c = false :=
  isBlank_eq_false_of_visible (Char.le_trans (by decide) h.1) (Char.le_trans h.2 (by decide))

/-- No character of a name is blank. -/
theorem Name.isBlank_eq_false (name : Name) : ∀ c ∈ name.chars, Text.isBlank c = false := by
  refine List.forall_mem_cons.mpr ⟨isBlank_eq_false_of_isLetter name.opens, ?_⟩
  intro c hc
  rcases name.continues c hc with hletter | hdigit
  · exact isBlank_eq_false_of_isLetter hletter
  · exact isBlank_eq_false_of_digit hdigit

/-- No character of a literal is blank. -/
theorem literal_isBlank_eq_false (literal : Numeral.Literal) :
    ∀ c ∈ literal.chars, Text.isBlank c = false := by
  intro c hc
  rcases List.mem_append.mp hc with hsign | hdigit
  · cases hs : literal.sign <;> simp [hs, Numeral.Sign.chars] at hsign <;> subst hsign <;> decide
  · exact isBlank_eq_false_of_digit (literal.decimal c hdigit)

/-- A leaf is one word. -/
theorem Leaf.isWord_word (leaf : Leaf) : Token.IsWord leaf.word := by
  rw [Token.IsWord, Leaf.word, String.toList_ofList]
  cases leaf with
  | number literal value spelled =>
    exact ⟨by simp [Leaf.chars, Numeral.Literal.chars, literal.nonempty],
      literal_isBlank_eq_false literal⟩
  | read name =>
    exact ⟨by simp [Leaf.chars], List.forall_mem_cons.mpr ⟨by decide,
      List.forall_mem_cons.mpr ⟨by decide, name.isBlank_eq_false⟩⟩⟩
  | address name =>
    exact ⟨by simp [Leaf.chars], List.forall_mem_cons.mpr ⟨by decide, name.isBlank_eq_false⟩⟩

/-- Every word of a phrase is one word. -/
theorem Phrase.isWord_of_mem_words (phrase : Phrase) : ∀ word ∈ phrase.words, Token.IsWord word := by
  induction phrase with
  | leaf operand => exact List.forall_mem_singleton.mpr operand.isWord_word
  | combine lhs rhs op ihl ihr =>
    have hop : Token.IsWord (operatorWord op) := by cases op <;> decide
    rw [Phrase.words, List.forall_mem_append, List.forall_mem_append]
    exact ⟨⟨ihl, ihr⟩, List.forall_mem_singleton.mpr hop⟩

/-- Every word of a script is one word. -/
theorem Script.isWord_of_mem_words {script : Script} : ∀ word ∈ script.words, Token.IsWord word := by
  have hkeyword : Token.IsWord "start" ∧ Token.IsWord "stop" ∧ Token.IsWord "store" := by decide
  intro word hword
  obtain ⟨block, _, hblock⟩ := List.mem_flatMap.mp hword
  simp only [Block.words, List.cons_append, List.mem_cons, List.mem_append, List.not_mem_nil,
    or_false] at hblock
  rcases hblock with rfl | hinner | rfl
  · exact hkeyword.1
  · rcases Block.exists_phrase_of_mem_inner hinner with ⟨phrase, hphrase⟩ | rfl
    · exact phrase.isWord_of_mem_words word hphrase
    · exact hkeyword.2.2
  · exact hkeyword.2.1

end Grammar

namespace Genome

/-- The text of a genome whose words are whole has those words. -/
theorem words_display {genome : Genome}
    (h : ∀ word ∈ genome.bodies.flatMap Command.words, Token.IsWord word) :
    Token.words genome.display = genome.bodies.flatMap Command.words := by
  have hlines : genome.display = String.join ((genome.bodies.map Command.display).map (· ++ "\n")) := by
    rw [List.map_map]
    rfl
  rw [hlines, Token.words_join '\n' rfl (by decide), List.flatMap_map]
  apply List.flatMap_congr
  intro body hbody
  apply Token.words_intercalate_space
  intro word hword
  exact h word (List.mem_flatMap.mpr ⟨body, hbody, hword⟩)

/-- A canonical genome reads back from its text. -/
theorem ofSource_display_of_canonical {genome : Genome} (h : genome.Canonical) :
    ofSource genome.display = .ok genome := by
  obtain ⟨script, hgenome, hwords⟩ := exists_script_of_canonical h
  refine ofTokens_eq_ok_iff_script.mpr ⟨script, ?_, hgenome⟩
  rw [hwords]
  exact (words_display (hwords ▸ Script.isWord_of_mem_words)).symm

/-- Only canonical genomes are read. -/
theorem canonical_of_ofSource {source : String} {genome : Genome} (h : ofSource source = .ok genome) :
    genome.Canonical := by
  obtain ⟨script, _, rfl⟩ := ofTokens_eq_ok_iff_script.mp h
  exact script.canonical_genome

/-- The text of a genome reads as that genome exactly when the genome is canonical, and every
genome that is read from a source reads back from its own text. -/
theorem ofSource_display_iff_canonical :
    (∀ genome : Genome, ofSource genome.display = .ok genome ↔ genome.Canonical) ∧
      ∀ (source : String) (genome : Genome), ofSource source = .ok genome →
        ofSource genome.display = .ok genome := by
  refine ⟨fun genome => ⟨canonical_of_ofSource, ofSource_display_of_canonical⟩, ?_⟩
  intro source genome h
  exact ofSource_display_of_canonical (canonical_of_ofSource h)

/-- A plus sign and leading zeros are not written again, and the genome is still the same. -/
theorem ofSource_display_plus_sign :
    ofSource "start +7 .a store\n-007 stop" =
        .ok ⟨[.sequence [.store (.address "a") (.number 7), .number (-7)]]⟩ ∧
      ofSource (display ⟨[.sequence [.store (.address "a") (.number 7), .number (-7)]]⟩) =
        .ok ⟨[.sequence [.store (.address "a") (.number 7), .number (-7)]]⟩ := by
  have hread : ofSource "start +7 .a store\n-007 stop" =
      .ok ⟨[.sequence [.store (.address "a") (.number 7), .number (-7)]]⟩ := by decide +kernel
  exact ⟨hread, ofSource_display_iff_canonical.2 _ _ hread⟩

end Genome

end GenomeScript

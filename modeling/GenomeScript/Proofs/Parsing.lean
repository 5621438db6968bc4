import GenomeScript.Proofs.Grammar
import GenomeScript.Proofs.Lookahead

/-!
# Reading is deriving

The reader of scripts accepts exactly the words that the grammar derives and builds the tree
of the derivation. Each loop has one specification: the operand stack holds the commands of
the phrases read so far, an expression is a statement or a phrase that nothing continues, a
body is a block, and a genome is a script. The texts of the tokens decide everything; their
lines and ranges do not matter.
-/

namespace GenomeScript

open Grammar

/-- A phrase as it waits on the operand stack: its command, as deep as the phrase has levels. -/
def Grammar.Phrase.entry (phrase : Phrase) : Stack.Entry := ⟨phrase.command, phrase.height⟩

namespace Token

/-- Tokens that spell two parts and a last word divide in the same way. -/
theorem exists_of_map_text_append {tokens : List Token} {xs ys : List String} {word : String}
    (h : tokens.map Token.text = xs ++ ys ++ [word]) :
    ∃ left right last, tokens = left ++ right ++ [last] ∧ left.map Token.text = xs ∧
      right.map Token.text = ys ∧ last.text = word := by
  obtain ⟨parts, ending, rfl, hparts, hending⟩ := List.map_eq_append_iff.mp h
  obtain ⟨left, right, rfl, hleft, hright⟩ := List.map_eq_append_iff.mp hparts
  obtain ⟨last, rfl, hlast⟩ := List.map_eq_singleton_iff.mp hending
  exact ⟨left, right, last, rfl, hleft, hright, hlast⟩

/-- Tokens that spell a block are its two delimiters and what stands between them. -/
theorem exists_of_map_text_block {tokens : List Token} {block : Block}
    (h : tokens.map Token.text = block.words) :
    ∃ start inner stop, tokens = start :: inner ++ [stop] ∧ start.text = "start" ∧
      inner.map Token.text = block.inner ∧ stop.text = "stop" := by
  obtain ⟨first, inner, stop, rfl, hfirst, hinner, hstop⟩ :=
    exists_of_map_text_append (show tokens.map Token.text = ["start"] ++ block.inner ++ ["stop"] from h)
  obtain ⟨start, rfl, hstart⟩ := List.map_eq_singleton_iff.mp hfirst
  exact ⟨start, inner, stop, rfl, hstart, hinner, hstop⟩

end Token

namespace Stack

/-- Placing the words of a phrase pushes the phrase, whatever lies below. -/
theorem placeAll_of_phrase {phrase : Phrase} (hlow : phrase.height ≤ 256) {tokens : List Token}
    (h : tokens.map Token.text = phrase.words) (stack : Stack) :
    stack.placeAll tokens = .ok (phrase.entry :: stack) := by
  induction phrase generalizing tokens stack with
  | leaf operand =>
    obtain ⟨token, rfl, hword⟩ := List.map_eq_singleton_iff.mp h
    rw [placeAll_cons, place_of_leaf stack hword]
    rfl
  | combine lhs rhs op ihl ihr =>
    have hlevels : 1 + max lhs.height rhs.height ≤ 256 := hlow
    obtain ⟨left, right, token, rfl, hleft, hright, hword⟩ := Token.exists_of_map_text_append h
    have hcombine : place (rhs.entry :: lhs.entry :: stack) token =
        .ok ((Phrase.combine lhs rhs op).entry :: stack) := by
      rw [place_of_operator _ hword]
      exact combine_eq_ok_iff.mpr ⟨_, _, _, rfl, hlevels, rfl⟩
    rw [placeAll_append, placeAll_append, ihl (by omega) hleft]
    change (placeAll (lhs.entry :: stack) right >>= fun next => placeAll next [token]) = _
    rw [ihr (by omega) hright]
    change placeAll (rhs.entry :: lhs.entry :: stack) [token] = _
    rw [placeAll_cons, hcombine]
    rfl

/-- One token that is not `store` turns a stack of phrases into a stack of phrases, and the
words of the phrases, the lowest first, grow by that token. -/
theorem exists_phrases_of_place {phrases : List ShallowPhrase} {token : Token} {next : Stack}
    (hrole : token.role ≠ .store)
    (h : place (phrases.map (·.phrase.entry)) token = .ok next) :
    ∃ results : List ShallowPhrase, next = results.map (·.phrase.entry) ∧
      results.reverse.flatMap (·.phrase.words) =
        phrases.reverse.flatMap (·.phrase.words) ++ [token.text] := by
  rcases word_of_place h with ⟨leaf, hword⟩ | ⟨op, hword⟩ | hstore
  · rw [place_of_leaf _ hword, Except.ok.injEq] at h
    refine ⟨⟨.leaf leaf, by simp [Phrase.height]⟩ :: phrases, h.symm, ?_⟩
    simp [Phrase.words, hword]
  · rw [place_of_operator _ hword] at h
    obtain ⟨top, below, rest, hstack, hdepth, hnext⟩ := combine_eq_ok_iff.mp h
    obtain ⟨rhs, others, rfl, rfl, hothers⟩ := List.map_eq_cons_iff.mp hstack
    obtain ⟨lhs, bottom, rfl, rfl, rfl⟩ := List.map_eq_cons_iff.mp hothers
    have hlow : (Phrase.combine lhs.phrase rhs.phrase op).height ≤ 256 := hdepth
    refine ⟨⟨_, hlow⟩ :: bottom, hnext, ?_⟩
    simp [Phrase.words, hword]
  · exact absurd (Role.of_eq_store_iff.mpr hstore) hrole

/-- Any run of such tokens does the same, token by token. -/
theorem exists_phrases_of_placeAll {tokens : List Token} {phrases : List ShallowPhrase}
    {next : Stack} (hrole : ∀ token ∈ tokens, token.role ≠ .store)
    (h : placeAll (phrases.map (·.phrase.entry)) tokens = .ok next) :
    ∃ results : List ShallowPhrase, next = results.map (·.phrase.entry) ∧
      results.reverse.flatMap (·.phrase.words) =
        phrases.reverse.flatMap (·.phrase.words) ++ tokens.map Token.text := by
  induction tokens generalizing phrases with
  | nil => exact ⟨phrases, (Except.ok.inj h).symm, by simp⟩
  | cons token tokens ih =>
    rw [placeAll_cons] at h
    obtain ⟨middle, hplace, hrest⟩ := Except.bind_eq_ok_iff.mp h
    obtain ⟨results, rfl, hwords⟩ := exists_phrases_of_place (hrole token (by simp)) hplace
    obtain ⟨final, hnext, hfinal⟩ := ih (fun t ht => hrole t (by simp [ht])) hrest
    exact ⟨final, hnext, by rw [hfinal, hwords]; simp⟩

end Stack

namespace Expression

/-- Tokens that continue no expression. -/
def Ends (tokens : List Token) : Prop :=
  ∀ token, tokens.head? = some token → token.role = .delimiter ∨ token.role = .foreign

/-- The first token decides whether anything continues. -/
theorem ends_cons {token : Token} {tokens : List Token} :
    Ends (token :: tokens) ↔ token.role = .delimiter ∨ token.role = .foreign := by
  simp [Ends]

/-- An expression takes every leaf and operator that it meets. -/
theorem extent_cons_of_isPlain {token : Token} (tokens : List Token) (h : IsPlain token.role) :
    extent (token :: tokens) = (token :: (extent tokens).1, (extent tokens).2) := by
  rcases h with h | h | h | h <;> rw [extent, h]

/-- An expression takes the first `store` and ends there. -/
theorem extent_cons_of_store {token : Token} (tokens : List Token) (h : token.role = .store) :
    extent (token :: tokens) = ([token], tokens) := by
  rw [extent, h]

/-- An expression takes none of the tokens that continue no expression. -/
theorem extent_of_ends {tokens : List Token} (h : Ends tokens) : extent tokens = ([], tokens) := by
  cases tokens with
  | nil => rfl
  | cons token tokens => rcases ends_cons.mp h with h | h <;> rw [extent, h]

/-- An expression takes a run of leaves and operators whole. -/
theorem extent_append_of_isPlain {own : List Token} (h : ∀ token ∈ own, IsPlain token.role)
    (rest : List Token) : extent (own ++ rest) = (own ++ (extent rest).1, (extent rest).2) := by
  induction own with
  | nil => rfl
  | cons token own ih =>
    rw [List.cons_append, extent_cons_of_isPlain _ (h token (by simp)),
      ih fun t ht => h t (by simp [ht])]
    rfl

/-- Leaves and operators come first; then either nothing continues the expression, or `store`
does and ends it. -/
theorem exists_extent (tokens : List Token) :
    ∃ own rest, tokens = own ++ rest ∧ (∀ token ∈ own, IsPlain token.role) ∧
      (Ends rest ∨ ∃ store later, rest = store :: later ∧ store.role = .store) := by
  induction tokens with
  | nil => exact ⟨[], [], rfl, by simp, .inl (by simp [Ends])⟩
  | cons token tokens ih =>
    obtain ⟨own, rest, rfl, hown, hrest⟩ := ih
    have hplain (h : IsPlain token.role) : ∀ t ∈ token :: own, IsPlain t.role := by
      intro t ht
      rcases List.mem_cons.mp ht with rfl | ht
      · exact h
      · exact hown t ht
    cases hrole : token.role with
    | delimiter => exact ⟨[], _, rfl, by simp, .inl (ends_cons.mpr (.inl hrole))⟩
    | foreign => exact ⟨[], _, rfl, by simp, .inl (ends_cons.mpr (.inr hrole))⟩
    | store => exact ⟨[], _, rfl, by simp, .inr ⟨token, _, rfl, hrole⟩⟩
    | number => exact ⟨token :: own, rest, rfl, hplain (.inl hrole), hrest⟩
    | read => exact ⟨token :: own, rest, rfl, hplain (.inr (.inl hrole)), hrest⟩
    | address => exact ⟨token :: own, rest, rfl, hplain (.inr (.inr (.inl hrole))), hrest⟩
    | operator => exact ⟨token :: own, rest, rfl, hplain (.inr (.inr (.inr hrole))), hrest⟩

/-- The tokens of one expression, before tokens that are left: a statement, or a phrase that
nothing continues. -/
def Derives (own rest : List Token) (command : Command) : Prop :=
  (∃ statement : Statement, own.map Token.text = statement.words ∧ statement.command = command) ∨
    ∃ shallow : ShallowPhrase, own.map Token.text = shallow.phrase.words ∧
      shallow.phrase.command = command ∧ Ends rest

/-- Tokens whose texts are words of phrases are leaves and operators. -/
theorem isPlain_of_map_text {phrase : Phrase} {own : List Token}
    (h : own.map Token.text = phrase.words) : ∀ token ∈ own, IsPlain token.role := by
  intro token htoken
  have hmem : token.text ∈ phrase.words := by
    rw [← h]
    exact List.mem_map_of_mem htoken
  exact Phrase.isPlain_of_mem_words hmem

/-- Leaves and operators do not store. -/
theorem role_ne_store_of_isPlain {token : Token} (h : IsPlain token.role) : token.role ≠ .store := by
  intro hstore
  rw [hstore] at h
  simp [IsPlain] at h

/-- The stack is empty before an expression, so what a run of leaves and operators leaves on it
are phrases with the words of that run. -/
theorem exists_phrases_of_isPlain {own : List Token} {stack : Stack}
    (hplain : ∀ token ∈ own, IsPlain token.role) (h : Stack.placeAll [] own = .ok stack) :
    ∃ results : List ShallowPhrase, stack = results.map (·.phrase.entry) ∧
      results.reverse.flatMap (·.phrase.words) = own.map Token.text := by
  have hrole : ∀ token ∈ own, token.role ≠ .store := fun token ht =>
    role_ne_store_of_isPlain (hplain token ht)
  have hempty : Stack.placeAll (([] : List ShallowPhrase).map (·.phrase.entry)) own = .ok stack := h
  obtain ⟨results, hstack, hwords⟩ := Stack.exists_phrases_of_placeAll hrole hempty
  exact ⟨results, hstack, by simpa using hwords⟩

/-- An expression that is read has been derived. -/
theorem derives_of_take {tokens rest : List Token} {command : Command}
    (h : take tokens = .ok (command, rest)) :
    ∃ own, tokens = own ++ rest ∧ Derives own rest command := by
  obtain ⟨⟨depth, hplace⟩, hrest⟩ := take_eq_ok_iff.mp h
  obtain ⟨own, after, rfl, hplain, hafter⟩ := exists_extent tokens
  rw [extent_append_of_isPlain hplain] at hplace hrest
  rcases hafter with hends | ⟨store, later, rfl, hstore⟩
  · rw [extent_of_ends hends] at hplace hrest
    rw [List.append_nil] at hplace
    subst hrest
    obtain ⟨results, hstack, hwords⟩ := exists_phrases_of_isPlain hplain hplace
    obtain ⟨shallow, rfl, hentry⟩ := List.map_eq_singleton_iff.mp hstack.symm
    refine ⟨own, rfl, .inr ⟨shallow, ?_, congrArg Stack.Entry.command hentry, hends⟩⟩
    rw [← hwords]
    simp
  · rw [extent_cons_of_store _ hstore] at hplace hrest
    subst hrest
    rw [Stack.placeAll_append] at hplace
    obtain ⟨stack, hown, hlast⟩ := Except.bind_eq_ok_iff.mp hplace
    obtain ⟨results, rfl, hwords⟩ := exists_phrases_of_isPlain hplain hown
    rw [Stack.placeAll_cons] at hlast
    obtain ⟨final, hplaced, hfinal⟩ := Except.bind_eq_ok_iff.mp hlast
    obtain rfl := Except.ok.inj hfinal
    have htext : store.text = "store" := Role.of_eq_store_iff.mp hstore
    rw [Stack.place_of_store _ htext] at hplaced
    obtain ⟨top, below, bottom, hstack, hdepth, hentry⟩ := Stack.combine_eq_ok_iff.mp hplaced
    obtain ⟨hfirst, rfl⟩ := List.cons.inj hentry
    obtain ⟨target, others, rfl, rfl, hothers⟩ := List.map_eq_cons_iff.mp hstack
    obtain ⟨value, rfl, rfl⟩ := List.map_eq_singleton_iff.mp hothers
    obtain ⟨rfl, _⟩ := Stack.Entry.mk.inj hfirst
    refine ⟨own ++ [store], by simp, .inl ⟨⟨value.phrase, target.phrase, hdepth⟩, ?_, rfl⟩⟩
    rw [List.map_append, ← hwords, List.map_singleton, htext]
    simp [Statement.words]

/-- The words of a statement are read as the statement, whatever follows. -/
theorem take_of_statement {statement : Statement} {own : List Token}
    (h : own.map Token.text = statement.words) (rest : List Token) :
    take (own ++ rest) = .ok (statement.command, rest) := by
  obtain ⟨value, target, store, rfl, hvalue, htarget, htext⟩ := Token.exists_of_map_text_append h
  have hlow := statement.low
  have hplain : ∀ token ∈ value ++ target, IsPlain token.role := by
    intro token htoken
    rcases List.mem_append.mp htoken with h | h
    · exact isPlain_of_map_text hvalue token h
    · exact isPlain_of_map_text htarget token h
  have hextent : extent (value ++ target ++ [store] ++ rest) = (value ++ target ++ [store], rest) := by
    rw [List.append_assoc, extent_append_of_isPlain hplain, List.singleton_append,
      extent_cons_of_store _ (Role.of_eq_store_iff.mpr htext)]
  have hvaluePlaced := Stack.placeAll_of_phrase (by omega) hvalue []
  have htargetPlaced := Stack.placeAll_of_phrase (by omega) htarget [statement.value.entry]
  have hstorePlaced : Stack.place [statement.target.entry, statement.value.entry] store =
      .ok [⟨statement.command, 1 + max statement.value.height statement.target.height⟩] := by
    rw [Stack.place_of_store _ htext]
    exact Stack.combine_eq_ok_iff.mpr ⟨_, _, _, rfl, hlow, rfl⟩
  refine take_eq_ok_iff.mpr
    ⟨⟨1 + max statement.value.height statement.target.height, ?_⟩, by rw [hextent]⟩
  rw [hextent, Stack.placeAll_append, Stack.placeAll_append, hvaluePlaced]
  change (Stack.placeAll [statement.value.entry] target >>= fun next => Stack.placeAll next [store]) = _
  rw [htargetPlaced]
  change Stack.placeAll [statement.target.entry, statement.value.entry] [store] = _
  rw [Stack.placeAll_cons, hstorePlaced]
  rfl

/-- The words of a phrase are read as the phrase, if nothing continues them. -/
theorem take_of_phrase {shallow : ShallowPhrase} {own rest : List Token}
    (h : own.map Token.text = shallow.phrase.words) (hends : Ends rest) :
    take (own ++ rest) = .ok (shallow.phrase.command, rest) := by
  have hextent : extent (own ++ rest) = (own, rest) := by
    rw [extent_append_of_isPlain (isPlain_of_map_text h), extent_of_ends hends, List.append_nil]
  refine take_eq_ok_iff.mpr ⟨⟨shallow.phrase.height, ?_⟩, by rw [hextent]⟩
  rw [hextent]
  exact Stack.placeAll_of_phrase shallow.low h []

/-- Reading one expression is deriving one. -/
theorem take_eq_ok_iff_derives {tokens rest : List Token} {command : Command} :
    take tokens = .ok (command, rest) ↔ ∃ own, tokens = own ++ rest ∧ Derives own rest command := by
  constructor
  · exact derives_of_take
  · intro h
    obtain ⟨own, rfl, ⟨statement, hwords, rfl⟩ | ⟨shallow, hwords, rfl, hends⟩⟩ := h
    · exact take_of_statement hwords rest
    · exact take_of_phrase hwords hends

/-- Tokens make one expression exactly when the expression at their front leaves none. -/
theorem ofTokens_eq_ok_iff {tokens : List Token} {command : Command} :
    ofTokens tokens = .ok command ↔ take tokens = .ok (command, []) := by
  unfold ofTokens
  cases take tokens with
  | error failure => simp [bind, Except.bind]
  | ok result =>
    obtain ⟨found, rest⟩ := result
    cases rest <;> simp [bind, Except.bind]

/-- Tokens make no single expression exactly when there is none at their front, or a token is left
behind it. -/
theorem ofTokens_eq_error_iff {tokens : List Token} {failure : Failure} :
    ofTokens tokens = .error failure ↔ take tokens = .error failure ∨
      ∃ command token rest, take tokens = .ok (command, token :: rest) ∧
        failure = .blame .unexpectedToken token := by
  unfold ofTokens
  cases take tokens with
  | error found => simp [bind, Except.bind]
  | ok result =>
    obtain ⟨found, rest⟩ := result
    cases rest <;> simp [bind, Except.bind, eq_comm]

end Expression

namespace Body

/-- Where nothing continues an expression, no tokens of a block are left. -/
theorem eq_nil_of_ends {block : Block} {own rest : List Token}
    (h : own.map Token.text = block.inner) (hends : Expression.Ends (own ++ rest)) : own = [] := by
  cases own with
  | nil => rfl
  | cons first own =>
    have hmem : first.text ∈ block.inner := by rw [← h]; simp
    have hrole := Block.role_ne_of_mem_inner hmem
    exact absurd (Expression.ends_cons.mp hends) (not_or.mpr hrole)

/-- An expression and the words of a block behind it are the words of a block. -/
theorem exists_block_of_derives {own later rest : List Token} {command : Command} {block : Block}
    (h : Expression.Derives own (later ++ rest) command) (hlater : later.map Token.text = block.inner) :
    ∃ longer : Block, (own ++ later).map Token.text = longer.inner ∧
      longer.commands = command :: block.commands := by
  rcases h with ⟨statement, hwords, rfl⟩ | ⟨shallow, hwords, rfl, hends⟩
  · refine ⟨⟨statement :: block.statements, block.closing⟩, ?_, rfl⟩
    simp [hwords, hlater, Block.inner]
  · -- Nothing continues a phrase, so it is the last expression of its block.
    obtain rfl := eq_nil_of_ends hlater hends
    obtain rfl : block = ⟨[], none⟩ := Block.inner_injective hlater.symm
    refine ⟨⟨[], some shallow⟩, ?_, rfl⟩
    simpa [Block.inner] using hwords

/-- A body that is read has been derived, from its first expression on. -/
theorem exists_block_of_commands {last : Token} {tokens rest : List Token} {inner : List Command}
    (h : commands last tokens = .ok (inner, rest)) :
    ∃ own stop, ∃ block : Block, tokens = own ++ stop :: rest ∧ own.map Token.text = block.inner ∧
      stop.text = "stop" ∧ block.commands = inner := by
  fun_induction commands last tokens generalizing inner rest with
  | case1 => cases h
  | case2 token tokens hstop =>
    obtain ⟨rfl, rfl⟩ := Prod.mk.inj (Except.ok.inj h)
    exact ⟨[], token, ⟨[], none⟩, rfl, rfl, hstop, rfl⟩
  | case3 => cases h
  | case4 token tokens _ command after htake ih =>
    obtain ⟨⟨others, final⟩, hothers, hresult⟩ := Except.map_eq_ok_iff.mp h
    obtain ⟨rfl, rfl⟩ := Prod.mk.inj hresult
    obtain ⟨later, stop, block, rfl, hlater, hstop, rfl⟩ := ih hothers
    obtain ⟨own, htokens, hderives⟩ := Expression.take_eq_ok_iff_derives.mp htake
    obtain ⟨longer, hlonger, hcommands⟩ := exists_block_of_derives hderives hlater
    exact ⟨own ++ later, stop, longer, by rw [htokens, List.append_assoc], hlonger, hstop, hcommands⟩

/-- An expression without `stop` is followed by the rest of its body. -/
theorem commands_append_of_take {last : Token} {own rest : List Token} {words : List String}
    {command : Command} (h : own.map Token.text = words) (hne : words ≠ []) (hinside : "stop" ∉ words)
    (htake : Expression.take (own ++ rest) = .ok (command, rest)) :
    commands last (own ++ rest) =
      (commands last rest).map fun others => (command :: others.1, others.2) := by
  cases own with
  | nil => exact absurd h.symm hne
  | cons token own =>
    have htoken : token.text ≠ Keyword.stop := by
      intro hstop
      apply hinside
      rw [← h, List.map_cons, hstop]
      exact List.mem_cons_self
    exact commands_cons_of_ok last htoken htake

/-- The words of a block are read as its expressions before whatever ends them. -/
theorem commands_append_of_block (last : Token) {block : Block} {own rest : List Token}
    (h : own.map Token.text = block.inner) (hends : Expression.Ends rest) :
    commands last (own ++ rest) =
      (commands last rest).map fun others => (block.commands ++ others.1, others.2) := by
  obtain ⟨statements, closing⟩ := block
  induction statements generalizing own with
  | nil =>
    cases closing with
    | none =>
      obtain rfl : own = [] := List.map_eq_nil_iff.mp h
      cases hrest : commands last rest <;> rw [List.nil_append, hrest] <;> rfl
    | some shallow =>
      exact commands_append_of_take h shallow.phrase.words_ne_nil (Block.delimiter_not_mem_inner _).2
        (Expression.take_of_phrase h hends)
  | cons statement statements ih =>
    have hinner : Block.inner ⟨statement :: statements, closing⟩ =
        statement.words ++ Block.inner ⟨statements, closing⟩ := by simp [Block.inner]
    rw [hinner] at h
    obtain ⟨first, later, rfl, hfirst, hlater⟩ := List.map_eq_append_iff.mp h
    have hinside : "stop" ∉ statement.words := by
      intro hmem
      apply (Block.delimiter_not_mem_inner ⟨statement :: statements, closing⟩).2
      rw [hinner]
      exact List.mem_append_left _ hmem
    rw [List.append_assoc, commands_append_of_take hfirst statement.words_ne_nil hinside
      (Expression.take_of_statement hfirst _), ih hlater]
    cases commands last rest <;> rfl

/-- The words of a block are read as the block, whatever follows `stop`. -/
theorem commands_of_block (last : Token) {block : Block} {own : List Token} {stop : Token}
    (h : own.map Token.text = block.inner) (hstop : stop.text = "stop") (rest : List Token) :
    commands last (own ++ stop :: rest) = .ok (block.commands, rest) := by
  have hends : Expression.Ends (stop :: rest) :=
    Expression.ends_cons.mpr (.inl (Role.of_eq_delimiter_iff.mpr (.inr hstop)))
  rw [commands_append_of_block last h hends, commands_cons_of_stop last rest hstop, Except.map,
    List.append_nil]

/-- Reading one body is deriving one block. -/
theorem take_eq_ok_iff_block {tokens rest : List Token} {body : Command} :
    take tokens = .ok (body, rest) ↔
      ∃ own, ∃ block : Block, tokens = own ++ rest ∧ own.map Token.text = block.words ∧
        block.command = body := by
  constructor
  · intro h
    cases tokens with
    | nil => cases h
    | cons start tokens =>
      rw [take_cons] at h
      by_cases hstart : start.text = Keyword.start
      · rw [if_pos hstart] at h
        obtain ⟨⟨inner, after⟩, hinner, hresult⟩ := Except.map_eq_ok_iff.mp h
        obtain ⟨rfl, rfl⟩ := Prod.mk.inj hresult
        obtain ⟨own, stop, block, rfl, hown, hstop, rfl⟩ := exists_block_of_commands hinner
        refine ⟨start :: own ++ [stop], block, by simp, ?_, rfl⟩
        have htext : start.text = "start" := hstart
        simp [Block.words, htext, hown, hstop]
      · rw [if_neg hstart] at h
        cases h
  · intro h
    obtain ⟨own, block, rfl, hwords, rfl⟩ := h
    obtain ⟨start, inner, stop, rfl, hstart, hinner, hstop⟩ := Token.exists_of_map_text_block hwords
    have hcommands := commands_of_block ((inner ++ stop :: rest).getLast?.getD start) hinner hstop rest
    have htokens : start :: inner ++ [stop] ++ rest = start :: (inner ++ stop :: rest) := by simp
    rw [htokens, take_cons, if_pos (show start.text = Keyword.start from hstart), hcommands]
    rfl

end Body

namespace Genome

/-- Bodies that are read have been derived. -/
theorem exists_script_of_bodiesOfTokens {tokens : List Token} {bodies : List Command}
    (h : bodiesOfTokens tokens = .ok bodies) :
    ∃ script : Script, script.words = tokens.map Token.text ∧ script.genome = ⟨bodies⟩ := by
  fun_induction bodiesOfTokens tokens generalizing bodies with
  | case1 => exact ⟨⟨[]⟩, rfl, by rw [← Except.ok.inj h]; rfl⟩
  | case2 => cases h
  | case3 token tokens body rest htake ih =>
    obtain ⟨others, hothers, rfl⟩ := Except.map_eq_ok_iff.mp h
    obtain ⟨script, hwords, hgenome⟩ := ih hothers
    obtain ⟨own, block, htokens, hown, rfl⟩ := Body.take_eq_ok_iff_block.mp htake
    refine ⟨⟨block :: script.blocks⟩, ?_, ?_⟩
    · rw [htokens, List.map_append, hown, ← hwords]
      rfl
    · have hbodies := congrArg Genome.bodies hgenome
      simp only [Script.genome] at hbodies ⊢
      rw [List.map_cons, hbodies]

/-- The words of a script are read as the bodies of the script, before whatever follows them. -/
theorem bodiesOfTokens_append_of_script {script : Script} {own : List Token}
    (h : script.words = own.map Token.text) (rest : List Token) :
    bodiesOfTokens (own ++ rest) = (bodiesOfTokens rest).map (script.genome.bodies ++ ·) := by
  obtain ⟨blocks⟩ := script
  induction blocks generalizing own with
  | nil =>
    obtain rfl : own = [] := List.map_eq_nil_iff.mp h.symm
    cases hrest : bodiesOfTokens rest with
    | error failure => rw [List.nil_append, hrest]; rfl
    | ok bodies => rw [List.nil_append, hrest]; rfl
  | cons block blocks ih =>
    obtain ⟨first, others, rfl, hfirst, hothers⟩ := List.map_eq_append_iff.mp h.symm
    have htake : Body.take (first ++ (others ++ rest)) = .ok (block.command, others ++ rest) :=
      Body.take_eq_ok_iff_block.mpr ⟨first, block, rfl, hfirst, rfl⟩
    cases first with
    | nil => simp [Block.words] at hfirst
    | cons token first =>
      rw [List.cons_append] at htake
      rw [List.append_assoc, List.cons_append, bodiesOfTokens_cons_of_ok htake, ih hothers.symm]
      cases bodiesOfTokens rest <;> rfl

/-- The words of a script are read as the bodies of the script. -/
theorem bodiesOfTokens_of_script {script : Script} {tokens : List Token}
    (h : script.words = tokens.map Token.text) : bodiesOfTokens tokens = .ok script.genome.bodies := by
  have happend := bodiesOfTokens_append_of_script h []
  rw [List.append_nil, bodiesOfTokens_nil] at happend
  rw [happend, Except.map, List.append_nil]

/-- Bodies that can be read are followed by the bodies of the tokens after them. -/
theorem bodiesOfTokens_append_of_ok {own : List Token} {bodies : List Command}
    (h : bodiesOfTokens own = .ok bodies) (rest : List Token) :
    bodiesOfTokens (own ++ rest) = (bodiesOfTokens rest).map (bodies ++ ·) := by
  obtain ⟨script, hwords, hgenome⟩ := exists_script_of_bodiesOfTokens h
  rw [bodiesOfTokens_append_of_script hwords, hgenome]

/-- Reading a genome is deriving a script. -/
theorem ofTokens_eq_ok_iff_script {tokens : List Token} {genome : Genome} :
    ofTokens tokens = .ok genome ↔
      ∃ script : Script, script.words = tokens.map Token.text ∧ script.genome = genome := by
  rw [ofTokens, Except.map_eq_ok_iff]
  constructor
  · intro h
    obtain ⟨bodies, hbodies, rfl⟩ := h
    exact exists_script_of_bodiesOfTokens hbodies
  · intro h
    obtain ⟨script, hwords, rfl⟩ := h
    exact ⟨_, bodiesOfTokens_of_script hwords, rfl⟩

/-- Tokens are read as a genome exactly when the grammar derives their texts with the tree of
that genome, and the grammar derives them in at most one way. -/
theorem ofTokens_iff_unique_derivation (tokens : List Token) :
    (∀ genome, ofTokens tokens = .ok genome ↔
      ∃ script : Script, script.words = tokens.map Token.text ∧ script.genome = genome) ∧
      Subsingleton {script : Script // script.words = tokens.map Token.text} := by
  refine ⟨fun genome => ofTokens_eq_ok_iff_script, ⟨?_⟩⟩
  intro a b
  exact Subtype.ext (Script.words_injective (a.property.trans b.property.symm))

end Genome

end GenomeScript

import GenomeScript.Proofs.Parsing

/-!
# Expressions as bodies

Tokens can be read as one expression with nothing after it, or, with `start` in front of them and
`stop` behind them, as a body. The two readers end an expression in different ways: one where the
tokens run out, the other at a `stop` that the expression leaves. Either way the tokens have to spell
a block, and the block of a lone expression is one with a single command. So the two readers agree,
also on tokens that hold `start` or `stop` themselves, and the body runs as its command does.
-/

namespace GenomeScript

open Grammar

namespace Grammar.Block

/-- A block of one command is a statement or a closing phrase. -/
theorem commands_eq_singleton_iff {block : Block} {command : Command} :
    block.commands = [command] ↔
      (∃ statement : Statement, block = ⟨[statement], none⟩ ∧ statement.command = command) ∨
        ∃ shallow : ShallowPhrase, block = ⟨[], some shallow⟩ ∧ shallow.phrase.command = command := by
  constructor
  · intro h
    obtain ⟨statements, closing⟩ := block
    cases statements with
    | nil =>
      cases closing with
      | none => cases h
      | some shallow => exact .inr ⟨shallow, rfl, (List.cons.inj h).1⟩
    | cons statement statements =>
      obtain ⟨hfirst, hothers⟩ := List.cons.inj h
      obtain ⟨hstatements, hclosing⟩ := List.append_eq_nil_iff.mp hothers
      obtain rfl := List.map_eq_nil_iff.mp hstatements
      cases closing with
      | none => exact .inl ⟨statement, rfl, hfirst⟩
      | some shallow => cases hclosing
  · rintro (⟨statement, rfl, rfl⟩ | ⟨shallow, rfl, rfl⟩) <;> rfl

end Grammar.Block

/-- Tokens make one expression exactly when their texts are those of a block of one command. -/
theorem Expression.ofTokens_eq_ok_iff_block {tokens : List Token} {command : Command} :
    ofTokens tokens = .ok command ↔
      ∃ block : Block, tokens.map Token.text = block.inner ∧ block.commands = [command] := by
  -- Where the tokens run out nothing continues a phrase, just as where a `stop` follows it.
  have hends : Ends [] := nofun
  rw [ofTokens_eq_ok_iff, take_eq_ok_iff_derives]
  constructor
  · intro h
    obtain ⟨own, htokens, hderives⟩ := h
    rw [List.append_nil] at htokens
    subst htokens
    have hnothing : ([] : List Token).map Token.text = Block.inner ⟨[], none⟩ := rfl
    obtain ⟨block, hwords, hcommands⟩ := Body.exists_block_of_derives hderives hnothing
    rw [List.append_nil] at hwords
    exact ⟨block, hwords, hcommands⟩
  · intro h
    obtain ⟨block, hwords, hcommands⟩ := h
    refine ⟨tokens, (List.append_nil tokens).symm, ?_⟩
    rcases Block.commands_eq_singleton_iff.mp hcommands with
      ⟨statement, rfl, hstatement⟩ | ⟨shallow, rfl, hshallow⟩
    · exact .inl ⟨statement, by simpa [Block.inner] using hwords, hstatement⟩
    · exact .inr ⟨shallow, by simpa [Block.inner] using hwords, hshallow, hends⟩

/-- Tokens between `start` and `stop` are a body, with nothing after it, exactly when their texts are
those of a block. -/
theorem Body.take_delimited_eq_ok_iff_block {tokens : List Token} {start stop : Token}
    (hstart : start.text = Keyword.start) (hstop : stop.text = Keyword.stop) {body : Command} :
    take (start :: tokens ++ [stop]) = .ok (body, []) ↔
      ∃ block : Block, tokens.map Token.text = block.inner ∧ block.command = body := by
  have hdelimited (block : Block) :
      (start :: tokens ++ [stop]).map Token.text = block.words ↔
        tokens.map Token.text = block.inner := by
    rw [Block.words, List.cons_append, List.map_cons, List.map_append, List.map_singleton, hstart,
      hstop, List.cons_append, List.cons.injEq]
    constructor
    · intro h
      exact List.append_cancel_right h.2
    · intro h
      exact ⟨rfl, congrArg (· ++ ["stop"]) h⟩
  rw [take_eq_ok_iff_block]
  constructor
  · intro h
    obtain ⟨own, block, htokens, hwords, hbody⟩ := h
    rw [List.append_nil] at htokens
    rw [← htokens] at hwords
    exact ⟨block, (hdelimited block).mp hwords, hbody⟩
  · intro h
    obtain ⟨block, hwords, hbody⟩ := h
    exact ⟨_, block, (List.append_nil _).symm, (hdelimited block).mpr hwords, hbody⟩

/-- A sequence of one command runs as the command does. -/
@[simp] theorem Command.run_sequence_singleton (command : Command) (store : Store) :
    (sequence [command]).run store = command.run store := by
  simp [run]

namespace Expression

/-- Tokens are read as one expression exactly when, between `start` and `stop`, they are read as a
body of that one command with nothing after it; and then the body and the expression give the same
value and leave the same store. -/
theorem ofTokens_eq_ok_iff_body (tokens : List Token) {start stop : Token}
    (hstart : start.text = Keyword.start) (hstop : stop.text = Keyword.stop) (command : Command) :
    (ofTokens tokens = .ok command ↔
        Body.take (start :: tokens ++ [stop]) = .ok (.sequence [command], [])) ∧
      (ofTokens tokens = .ok command → ∀ body rest,
        Body.take (start :: tokens ++ [stop]) = .ok (body, rest) →
          ∀ store, command.run store = body.run store) := by
  have hiff : ofTokens tokens = .ok command ↔
      Body.take (start :: tokens ++ [stop]) = .ok (.sequence [command], []) := by
    rw [ofTokens_eq_ok_iff_block, Body.take_delimited_eq_ok_iff_block hstart hstop]
    simp only [Block.command, Command.sequence.injEq]
  refine ⟨hiff, ?_⟩
  intro h body rest hbody store
  obtain ⟨rfl, _⟩ := Prod.mk.inj (Except.ok.inj ((hiff.mp h).symm.trans hbody))
  rw [Command.run_sequence_singleton]

/-- The expression stores a product, and so does the body around it. -/
theorem ofTokens_eq_ok_iff_body_product :
    ofTokens (Token.scan "*.a 3 mult .b store") =
        .ok (.store (.address "b") (.binary .mult (.read "a") (.number 3))) ∧
      Body.take (⟨"start", 1, .none⟩ :: Token.scan "*.a 3 mult .b store" ++ [⟨"stop", 4, .none⟩]) =
        .ok (.sequence [.store (.address "b") (.binary .mult (.read "a") (.number 3))], []) ∧
      (Command.sequence [.store (.address "b") (.binary .mult (.read "a") (.number 3))]).run
        (.ofList [("a", -4)]) = (-12, .ofList [("a", -4), ("b", -12)]) := by
  have hread : ofTokens (Token.scan "*.a 3 mult .b store") =
      .ok (.store (.address "b") (.binary .mult (.read "a") (.number 3))) := by decide +kernel
  have hstart : (Token.mk "start" 1 .none).text = Keyword.start := rfl
  have hstop : (Token.mk "stop" 4 .none).text = Keyword.stop := rfl
  obtain ⟨hiff, hruns⟩ := ofTokens_eq_ok_iff_body (Token.scan "*.a 3 mult .b store") hstart hstop
    (.store (.address "b") (.binary .mult (.read "a") (.number 3)))
  refine ⟨hread, hiff.mp hread, ?_⟩
  rw [← hruns hread _ _ (hiff.mp hread)]
  rfl

/-- A `stop` among the tokens ends the body early, and the expression is refused for it. -/
example :
    ofTokens (Token.scan "1 stop") = .error (.blame .unexpectedToken ⟨"stop", 1, ⟨2, 6⟩⟩) ∧
      Body.take (⟨"start", 1, .none⟩ :: Token.scan "1 stop" ++ [⟨"stop", 1, .none⟩]) =
        .ok (.sequence [.number 1], [⟨"stop", 1, .none⟩]) := by decide +kernel

end Expression

end GenomeScript

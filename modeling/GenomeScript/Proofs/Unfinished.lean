import GenomeScript.Proofs.Balance

/-!
# Scripts that lack their last `stop`

A script is refused for a missing `stop` exactly when `stop` is all that it lacks: the same tokens
with one `stop` behind them can be read. Both say that the words are those of a script and of a
block that was opened and not closed. The token blamed is the last one of all.
-/

namespace GenomeScript

open Grammar

namespace Expression

/-- No fault of an expression is a missing `stop`. -/
theorem Outcome.fault_ne_missingStop {tokens : List Token} {failure : Failure}
    (h : Outcome tokens (.error failure)) : failure.fault ≠ .missingStop := by
  cases h with
  | refused _ _ hrefused =>
    cases hrefused with
    | malformed hmalformed => cases hmalformed <;> nofun
    | missingOperands => nofun
    | nestingTooDeep => nofun
  | empty => nofun
  | leftover => nofun

/-- An expression that cannot be read is not refused for a missing `stop`. -/
theorem fault_ne_missingStop_of_take {tokens : List Token} {failure : Failure}
    (h : take tokens = .error failure) : failure.fault ≠ .missingStop := by
  have houtcome := outcome_take tokens
  rw [h] at houtcome
  exact houtcome.fault_ne_missingStop

end Expression

namespace Body

/-- A body that is refused for a missing `stop` has only words of a block. -/
theorem exists_block_of_missingStop {last : Token} {tokens : List Token} {failure : Failure}
    (h : commands last tokens = .error failure) (hfault : failure.fault = .missingStop) :
    failure.blamed = last ∧ ∃ block : Block, tokens.map Token.text = block.inner := by
  fun_induction commands last tokens with
  | case1 =>
    obtain rfl := Except.error.inj h
    exact ⟨rfl, ⟨[], none⟩, rfl⟩
  | case2 => cases h
  | case3 token tokens _ found htake =>
    obtain rfl := Except.error.inj h
    exact absurd hfault (Expression.fault_ne_missingStop_of_take htake)
  | case4 token tokens _ command rest htake ih =>
    obtain ⟨hblamed, block, hrest⟩ := ih (Except.map_eq_error_iff.mp h)
    obtain ⟨own, htokens, hderives⟩ := Expression.derives_of_take htake
    rw [← List.append_nil rest] at hderives
    obtain ⟨longer, hlonger, _⟩ := exists_block_of_derives hderives hrest
    exact ⟨hblamed, longer, by rw [htokens, hlonger]⟩

/-- The words of a block without `stop` are refused for it. -/
theorem commands_of_open_block (last : Token) {block : Block} {tokens : List Token}
    (h : tokens.map Token.text = block.inner) :
    commands last tokens = .error (.blame .missingStop last) := by
  have hends : Expression.Ends [] := by simp [Expression.Ends]
  have happend := commands_append_of_block last h hends
  rwa [List.append_nil, commands_nil] at happend

end Body

namespace Genome

/-- The words of a script and of a block behind it that is not closed. -/
def Unfinished (tokens : List Token) : Prop :=
  ∃ script : Script, ∃ block : Block, tokens.map Token.text = script.words ++ "start" :: block.inner

/-- Bodies that are refused for a missing `stop` are unfinished, and the last token is blamed. -/
theorem unfinished_of_missingStop {tokens : List Token} {failure : Failure}
    (h : bodiesOfTokens tokens = .error failure) (hfault : failure.fault = .missingStop) :
    Unfinished tokens ∧ tokens.getLast? = some failure.blamed := by
  fun_induction bodiesOfTokens tokens with
  | case1 => cases h
  | case2 token tokens found htake =>
    obtain rfl := Except.error.inj h
    rw [Body.take_cons] at htake
    split at htake
    next hstart =>
      obtain ⟨hblamed, block, hinner⟩ :=
        Body.exists_block_of_missingStop (Except.map_eq_error_iff.mp htake) hfault
      refine ⟨⟨⟨[]⟩, block, ?_⟩, ?_⟩
      · rw [List.map_cons, hinner, hstart]
        rfl
      · rw [hblamed, List.getLast?_cons]
    next =>
      obtain rfl := Except.error.inj htake
      cases hfault
  | case3 token tokens body rest htake ih =>
    obtain ⟨⟨script, block, hrest⟩, hlast⟩ := ih (Except.map_eq_error_iff.mp h)
    obtain ⟨own, first, htokens, hown, _⟩ := Body.take_eq_ok_iff_block.mp htake
    rw [htokens]
    refine ⟨⟨⟨first :: script.blocks⟩, block, ?_⟩, ?_⟩
    · rw [List.map_append, hown, hrest, ← List.append_assoc]
      rfl
    · rw [List.getLast?_append, hlast]
      rfl

/-- Unfinished tokens are refused for a missing `stop`. -/
theorem missingStop_of_unfinished {tokens : List Token} (h : Unfinished tokens) :
    ∃ blamed, bodiesOfTokens tokens = .error (.blame .missingStop blamed) := by
  obtain ⟨script, block, hwords⟩ := h
  obtain ⟨own, others, rfl, hown, hothers⟩ := List.map_eq_append_iff.mp hwords
  obtain ⟨start, inner, rfl, hstart, hinner⟩ := List.map_eq_cons_iff.mp hothers
  have htake : Body.take (start :: inner) =
      .error (.blame .missingStop (inner.getLast?.getD start)) := by
    rw [Body.take_cons, if_pos (show start.text = Keyword.start from hstart),
      Body.commands_of_open_block _ hinner]
    rfl
  rw [bodiesOfTokens_append_of_script hown.symm, bodiesOfTokens_cons_of_error htake]
  exact ⟨_, rfl⟩

/-- Tokens are unfinished exactly when `stop` makes them a script. -/
theorem unfinished_iff_script {tokens : List Token} {stop : Token} (hstop : stop.text = Keyword.stop) :
    Unfinished tokens ↔ ∃ script : Script, script.words = (tokens ++ [stop]).map Token.text := by
  rw [List.map_append, List.map_singleton, hstop]
  constructor
  · intro ⟨script, block, hwords⟩
    refine ⟨⟨script.blocks ++ [block]⟩, ?_⟩
    rw [hwords]
    simp [Script.words, Block.words, Keyword.stop]
  · rintro ⟨⟨blocks⟩, hwords⟩
    rcases List.eq_nil_or_concat' blocks with rfl | ⟨init, block, rfl⟩
    · simp [Script.words] at hwords
    · have hparts : (Script.words ⟨init⟩ ++ "start" :: block.inner) ++ ["stop"] =
          tokens.map Token.text ++ ["stop"] := by
        rw [← show Keyword.stop = "stop" from rfl, ← hwords]
        simp [Script.words, Block.words, Keyword.stop]
      exact ⟨⟨init⟩, block, (List.append_inj' hparts rfl).1.symm⟩

/-- Tokens are refused for a missing `stop` exactly when they can be read with `stop` behind them,
and then the last of them is blamed. An expression that is read takes at least one token, so the one
that it took last can be found by counting, keeping it finds the token to blame, and expressions
cannot be taken without end. -/
theorem missingStop_iff_stop_completes (tokens : List Token) {stop : Token}
    (hstop : stop.text = Keyword.stop) :
    ((∃ failure, ofTokens tokens = .error failure ∧ failure.fault = .missingStop) ↔
        ∃ genome, ofTokens (tokens ++ [stop]) = .ok genome) ∧
      (∀ failure, ofTokens tokens = .error failure → failure.fault = .missingStop →
        tokens.getLast? = some failure.blamed) ∧
      (∀ command rest, Expression.take tokens = .ok (command, rest) →
        rest.length < tokens.length ∧ ∃ init last, tokens = init ++ last :: rest ∧
          tokens[tokens.length - rest.length - 1]? = some last) ∧
      (∀ start, Body.commandsAfter start tokens = Body.commands (tokens.getLast?.getD start) tokens) ∧
      WellFounded fun after before => ∃ command, Expression.take before = .ok (command, after) := by
  refine ⟨⟨?_, ?_⟩, ?_, ?_, fun start => Body.commandsAfter_eq start tokens, ?_⟩
  · intro ⟨failure, h, hfault⟩
    obtain ⟨hunfinished, _⟩ := unfinished_of_missingStop (Except.map_eq_error_iff.mp h) hfault
    obtain ⟨script, hwords⟩ := (unfinished_iff_script hstop).mp hunfinished
    exact ⟨_, ofTokens_eq_ok_iff_script.mpr ⟨script, hwords, rfl⟩⟩
  · intro ⟨genome, h⟩
    obtain ⟨script, hwords, _⟩ := ofTokens_eq_ok_iff_script.mp h
    have hunfinished := (unfinished_iff_script hstop).mpr ⟨script, hwords⟩
    obtain ⟨blamed, hbodies⟩ := missingStop_of_unfinished hunfinished
    exact ⟨_, Except.map_eq_error_iff.mpr hbodies, rfl⟩
  · intro failure h hfault
    exact (unfinished_of_missingStop (Except.map_eq_error_iff.mp h) hfault).2
  · intro command rest h
    exact ⟨Expression.length_rest_lt h, Expression.exists_last_of_take h⟩
  · refine Subrelation.wf ?_ (measure List.length).wf
    intro after before ⟨command, h⟩
    exact Expression.length_rest_lt h

/-- The second body ends in a phrase that nothing follows, and `stop` completes it. The statement
before that phrase, taken by itself, leaves the phrase. -/
theorem missingStop_iff_stop_completes_phrase :
    ofTokens (Token.scan "start stop start\n1 .x store\n*.x") =
        .error (.blame .missingStop ⟨"*.x", 3, ⟨28, 31⟩⟩) ∧
      (∃ genome, ofTokens (Token.scan "start stop start\n1 .x store\n*.x" ++ [⟨"stop", 7, .none⟩]) =
        .ok genome) ∧
      (Token.scan "start stop start\n1 .x store\n*.x").getLast? = some ⟨"*.x", 3, ⟨28, 31⟩⟩ ∧
      Expression.take (Token.scan "1 .x store\n*.x") =
        .ok (.store (.address "x") (.number 1), [⟨"*.x", 2, ⟨11, 14⟩⟩]) ∧
      ∃ init last, Token.scan "1 .x store\n*.x" = init ++ [last, ⟨"*.x", 2, ⟨11, 14⟩⟩] := by
  have hopen : ofTokens (Token.scan "start stop start\n1 .x store\n*.x") =
      .error (.blame .missingStop ⟨"*.x", 3, ⟨28, 31⟩⟩) := by decide +kernel
  have htake : Expression.take (Token.scan "1 .x store\n*.x") =
      .ok (.store (.address "x") (.number 1), [⟨"*.x", 2, ⟨11, 14⟩⟩]) := by decide +kernel
  have hstop : (Token.mk "stop" 7 .none).text = Keyword.stop := rfl
  obtain ⟨hiff, hblamed, _⟩ :=
    missingStop_iff_stop_completes (Token.scan "start stop start\n1 .x store\n*.x") hstop
  obtain ⟨_, _, htaken, _⟩ := missingStop_iff_stop_completes (Token.scan "1 .x store\n*.x") hstop
  obtain ⟨_, init, last, hsplit, _⟩ := htaken _ _ htake
  exact ⟨hopen, hiff.mp ⟨_, hopen, rfl⟩, hblamed _ hopen rfl, htake, init, last, hsplit⟩

end Genome

end GenomeScript

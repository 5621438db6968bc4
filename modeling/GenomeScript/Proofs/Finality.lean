import GenomeScript.Proofs.Balance

/-!
# Failures that stay

A script that cannot be read fails at the first place that is wrong, and what follows that place
does not matter. So the failure stays the same, fault and token, whatever tokens are added behind
the script. Two failures can be found only because the tokens end, and further tokens may repair
them: a missing `stop`, and operands that are left over when the last token has been taken.

The reason is the same at every level. A reader that leaves tokens has seen where its part ends, and
takes the same part of a longer script. A part that ends only with the tokens leaves none, and then
nothing but a missing `stop` can be found behind it.
-/

namespace GenomeScript

open Grammar

namespace Failure

/-- A failure of tokens that is not found because they end. -/
structure IsFinal (tokens : List Token) (failure : Failure) : Prop where
  stops : failure.fault ≠ .missingStop
  uses : ∀ count, failure.fault = .leftoverOperands count → tokens.getLast? ≠ some failure.blamed

/-- A failure that is final for tokens is final for the later ones among them. -/
theorem IsFinal.of_append {own rest : List Token} {failure : Failure}
    (h : failure.IsFinal (own ++ rest)) (hne : rest ≠ []) : failure.IsFinal rest := by
  refine ⟨h.stops, ?_⟩
  intro count hfault
  have hlast := h.uses count hfault
  rwa [List.getLast?_append_of_ne_nil _ hne] at hlast

end Failure

open Failure

namespace Expression

/-- An expression takes the same tokens of a longer list, unless all of them are leaves and
operators, which more tokens can continue. -/
theorem extent_append_or (tokens more : List Token) :
    extent (tokens ++ more) = ((extent tokens).1, (extent tokens).2 ++ more) ∨
      extent tokens = (tokens, []) ∧
        extent (tokens ++ more) = (tokens ++ (extent more).1, (extent more).2) := by
  obtain ⟨own, rest, rfl, hplain, hrest⟩ := exists_extent tokens
  rw [List.append_assoc, extent_append_of_isPlain hplain, extent_append_of_isPlain hplain]
  rcases hrest with hends | ⟨store, later, rfl, hstore⟩
  · cases rest with
    | nil =>
      rw [List.append_nil]
      exact .inr ⟨by simp [extent], rfl⟩
    | cons token rest =>
      have hmore : Ends (token :: rest ++ more) := ends_cons.mpr (ends_cons.mp hends)
      rw [extent_of_ends hends, extent_of_ends hmore]
      exact .inl rfl
  · rw [List.cons_append, extent_cons_of_store _ hstore, extent_cons_of_store _ hstore]
    exact .inl rfl

/-- An expression that leaves tokens is the same before more tokens. -/
theorem take_append_of_ok {tokens rest : List Token} {command : Command}
    (h : take tokens = .ok (command, rest)) (hne : rest ≠ []) (more : List Token) :
    take (tokens ++ more) = .ok (command, rest ++ more) := by
  obtain ⟨hplaced, hrest⟩ := take_eq_ok_iff.mp h
  rcases extent_append_or tokens more with hsame | ⟨hwhole, _⟩
  · refine take_eq_ok_iff.mpr ?_
    rw [hsame]
    exact ⟨hplaced, by rw [hrest]⟩
  · rw [hwhole] at hrest
    exact absurd hrest.symm hne

/-- An expression fails where one of its tokens is refused, or with the stack that they leave. -/
theorem take_eq_error_iff {tokens : List Token} {failure : Failure} :
    take tokens = .error failure ↔ Stack.placeAll [] (extent tokens).1 = .error failure ∨
      ∃ stack, Stack.placeAll [] (extent tokens).1 = .ok stack ∧
        conclude (extent tokens).1 (extent tokens).2 stack = .error failure := by
  simp only [take]
  cases Stack.placeAll [] (extent tokens).1 <;> simp [bind, Except.bind]

/-- What the stack says about an expression does not depend on later tokens, if the expression took
any or left any. -/
theorem conclude_append_of_error {own rest : List Token} {stack : Stack} {failure : Failure}
    (hne : stack = [] → rest ≠ []) (h : conclude own rest stack = .error failure)
    (more : List Token) : conclude own (rest ++ more) stack = .error failure := by
  match stack with
  | [] =>
    obtain ⟨token, later, rfl⟩ := List.exists_cons_of_ne_nil (hne rfl)
    exact h
  | [_] => cases h
  | _ :: _ :: _ => exact h

/-- An expression whose failure is final fails in the same way before more tokens. -/
theorem take_append_of_error {tokens : List Token} {failure : Failure} (hne : tokens ≠ [])
    (h : take tokens = .error failure) (hfinal : failure.IsFinal tokens) (more : List Token) :
    take (tokens ++ more) = .error failure := by
  rw [take_eq_error_iff] at h ⊢
  rcases extent_append_or tokens more with hsame | ⟨hwhole, hlonger⟩
  · rw [hsame]
    refine h.imp_right ?_
    intro ⟨stack, hplaced, hconclude⟩
    refine ⟨stack, hplaced, conclude_append_of_error ?_ hconclude more⟩
    rintro rfl hrest
    -- An empty stack means that no token was taken, and none was left either.
    have hparts := extent_append tokens
    rw [Stack.eq_nil_of_placeAll hplaced, hrest] at hparts
    exact hne hparts.symm
  · rw [hwhole] at h
    rw [hlonger, Stack.placeAll_append]
    rcases h with hrefused | ⟨stack, hplaced, hconclude⟩
    · rw [hrefused]
      exact .inl rfl
    · -- The tokens end with the expression, so what is left over is blamed on the last of them.
      match stack with
      | [] => exact absurd (Stack.eq_nil_of_placeAll hplaced) hne
      | [_] => cases hconclude
      | _ :: _ :: _ =>
        obtain rfl := Except.error.inj hconclude
        refine absurd ?_ (hfinal.uses _ (congrArg Failure.fault (at?_eq _ _)))
        rw [List.getLast?_eq_some_getLast hne]
        rfl

end Expression

namespace Body

/-- Where the tokens have run out only `stop` is missing. -/
theorem ne_nil_of_commands {last : Token} {tokens : List Token} {failure : Failure}
    (h : commands last tokens = .error failure) (hstops : failure.fault ≠ .missingStop) :
    tokens ≠ [] := by
  rintro rfl
  rw [commands_nil] at h
  obtain rfl := Except.error.inj h
  exact hstops rfl

/-- The expressions of a body whose failure is final fail in the same way before more tokens. -/
theorem commands_append_of_error {last : Token} {tokens : List Token} {failure : Failure}
    (h : commands last tokens = .error failure) (hfinal : failure.IsFinal tokens) (other : Token)
    (more : List Token) : commands other (tokens ++ more) = .error failure := by
  fun_induction commands last tokens with
  | case1 =>
    obtain rfl := Except.error.inj h
    exact absurd rfl hfinal.stops
  | case2 => cases h
  | case3 token tokens hstop found htake =>
    obtain rfl := Except.error.inj h
    exact commands_cons_of_error other hstop
      (Expression.take_append_of_error (List.cons_ne_nil _ _) htake hfinal more)
  | case4 token tokens hstop command rest htake ih =>
    have hrest := Except.map_eq_error_iff.mp h
    -- An expression that is read only because the tokens end would leave a missing `stop`.
    have hne : rest ≠ [] := ne_nil_of_commands hrest hfinal.stops
    obtain ⟨own, htokens, _⟩ := Expression.derives_of_take htake
    have hlater := ih hrest ((htokens ▸ hfinal).of_append hne)
    have hlonger := Expression.take_append_of_ok htake hne more
    rw [List.cons_append] at hlonger ⊢
    rw [commands_cons_of_ok other hstop hlonger, hlater]
    rfl

/-- A body that ends is the same before more tokens. -/
theorem take_append_of_ok {tokens rest : List Token} {body : Command}
    (h : take tokens = .ok (body, rest)) (more : List Token) :
    take (tokens ++ more) = .ok (body, rest ++ more) := by
  obtain ⟨own, block, rfl, hown, rfl⟩ := take_eq_ok_iff_block.mp h
  exact take_eq_ok_iff_block.mpr ⟨own, block, List.append_assoc own rest more, hown, rfl⟩

/-- A body whose failure is final fails in the same way before more tokens. -/
theorem take_append_of_error {tokens : List Token} {failure : Failure} (hne : tokens ≠ [])
    (h : take tokens = .error failure) (hfinal : failure.IsFinal tokens) (more : List Token) :
    take (tokens ++ more) = .error failure := by
  obtain ⟨token, tokens, rfl⟩ := List.exists_cons_of_ne_nil hne
  rw [List.cons_append, take_cons]
  rw [take_cons] at h
  split at h
  next hstart =>
    have hcommands := Except.map_eq_error_iff.mp h
    have hinner : tokens ≠ [] := ne_nil_of_commands hcommands hfinal.stops
    have hlater : failure.IsFinal ([token] ++ tokens) := hfinal
    rw [if_pos hstart, Except.map_eq_error_iff]
    exact commands_append_of_error hcommands (hlater.of_append hinner) _ more
  next hstart =>
    rw [if_neg hstart]
    exact h

end Body

namespace Genome

/-- Bodies whose failure is final fail in the same way before more tokens. -/
theorem bodiesOfTokens_append_of_error {tokens : List Token} {failure : Failure}
    (h : bodiesOfTokens tokens = .error failure) (hfinal : failure.IsFinal tokens)
    (more : List Token) : bodiesOfTokens (tokens ++ more) = .error failure := by
  fun_induction bodiesOfTokens tokens with
  | case1 => cases h
  | case2 token tokens found htake =>
    obtain rfl := Except.error.inj h
    exact bodiesOfTokens_cons_of_error
      (Body.take_append_of_error (List.cons_ne_nil _ _) htake hfinal more)
  | case3 token tokens body rest htake ih =>
    have hrest := Except.map_eq_error_iff.mp h
    have hne : rest ≠ [] := by
      rintro rfl
      simp at hrest
    obtain ⟨own, _, htokens, _⟩ := Body.take_eq_ok_iff_block.mp htake
    have hlater := ih hrest ((htokens ▸ hfinal).of_append hne)
    have hlonger := Body.take_append_of_ok htake more
    rw [List.cons_append] at hlonger ⊢
    rw [bodiesOfTokens_cons_of_ok hlonger, hlater]
    rfl

/-- A script that fails goes on failing in the same way and with the same token blamed, whatever
tokens are added to it, unless `stop` is missing or operands are left over at its last token. -/
theorem ofTokens_append_of_error {tokens : List Token} {failure : Failure}
    (h : ofTokens tokens = .error failure)
    (hfinal : (failure.fault ≠ .missingStop ∧ ∀ count, failure.fault ≠ .leftoverOperands count) ∨
      ∃ count, failure.fault = .leftoverOperands count ∧ tokens.getLast? ≠ some failure.blamed)
    (more : List Token) : ofTokens (tokens ++ more) = .error failure := by
  have hstays : failure.IsFinal tokens := by
    rcases hfinal with ⟨hstops, huses⟩ | ⟨count, hcount, hlast⟩
    · exact ⟨hstops, fun count hcount => absurd hcount (huses count)⟩
    · exact ⟨by rw [hcount]; nofun, fun _ _ => hlast⟩
  exact Except.map_eq_error_iff.mpr
    (bodiesOfTokens_append_of_error (Except.map_eq_error_iff.mp h) hstays more)

/-- Two operands are left over before `stop`, and the body after it, itself not finished, changes
nothing. A script that does not begin with `start` cannot be mended behind its end. -/
theorem ofTokens_append_of_error_before_stop :
    ofTokens (Token.scan "start 1 2 stop") = .error (.blame (.leftoverOperands 2) ⟨"2", 1, ⟨8, 9⟩⟩) ∧
      ofTokens (Token.scan "start 1 2 stop" ++ Token.scan "add start") =
        .error (.blame (.leftoverOperands 2) ⟨"2", 1, ⟨8, 9⟩⟩) ∧
      ofTokens (Token.scan "stop") = .error (.synthetic .missingStart) ∧
      ofTokens (Token.scan "stop" ++ Token.scan "start stop") =
        .error (.synthetic .missingStart) := by
  have hleft : ofTokens (Token.scan "start 1 2 stop") =
      .error (.blame (.leftoverOperands 2) ⟨"2", 1, ⟨8, 9⟩⟩) := by decide +kernel
  have hstart : ofTokens (Token.scan "stop") = .error (.synthetic .missingStart) := by decide +kernel
  exact ⟨hleft, ofTokens_append_of_error hleft (.inr ⟨2, rfl, by decide +kernel⟩) _, hstart,
    ofTokens_append_of_error hstart (.inl ⟨nofun, nofun⟩) _⟩

end Genome

end GenomeScript

import Mathlib.Data.List.Basic
import GenomeScript.Genome

/-!
# The last token of a body

A body does not look ahead to find the token to blame if `stop` is missing. It keeps the token that
was taken last, which it finds by counting back from the tokens left by each expression; since an
expression takes at least one token, there is always one to find.

Keeping that token comes to the same as knowing the last token from the start. So the expressions of
a body can be read with the token to blame given once and for all, and what a body does is stated in
that form: where it ends, where it fails and how it goes on.
-/

namespace GenomeScript

/-- An expression takes a last token, and it stands right before the tokens that are left. -/
theorem Expression.exists_last_of_take {tokens rest : List Token} {command : Command}
    (h : take tokens = .ok (command, rest)) :
    ∃ init last, tokens = init ++ last :: rest ∧
      tokens[tokens.length - rest.length - 1]? = some last := by
  have hshort := length_rest_lt h
  obtain ⟨_, hrest⟩ := take_eq_ok_iff.mp h
  have hparts := extent_append tokens
  rw [hrest] at hparts
  generalize (extent tokens).1 = own at hparts
  subst hparts
  have hown : own ≠ [] := by
    rintro rfl
    simp at hshort
  obtain ⟨init, last, rfl⟩ := (List.eq_nil_or_concat' own).resolve_left hown
  refine ⟨init, last, by simp, ?_⟩
  have hindex : (init ++ [last] ++ rest).length - rest.length - 1 = init.length := by
    simp only [List.length_append, List.length_singleton]
    omega
  rw [hindex, List.append_assoc, List.getElem?_append_right (Nat.le_refl _)]
  simp

namespace Body

/-- Read expressions up to the end of the body. If the tokens run out, blame `last`. -/
def commands (last : Token) : List Token → Except Failure (List Command × List Token)
  | [] => .error (.blame .missingStop last)
  | token :: tokens =>
    if token.text = Keyword.stop then .ok ([], tokens)
    else
      match _taken : Expression.take (token :: tokens) with
      | .error failure => .error failure
      | .ok (command, rest) =>
        (commands last rest).map fun (others, rest) => (command :: others, rest)
termination_by tokens => tokens.length
decreasing_by exact Expression.length_rest_lt _taken

/-- A body whose tokens run out has no end. -/
@[simp] theorem commands_nil (last : Token) :
    commands last [] = .error (.blame .missingStop last) := by
  rw [commands]

/-- The end of a body yields no command. -/
theorem commands_cons_of_stop (last : Token) {token : Token} (tokens : List Token)
    (h : token.text = Keyword.stop) : commands last (token :: tokens) = .ok ([], tokens) := by
  rw [commands, if_pos h]

/-- A body fails with the first expression in it that fails. -/
theorem commands_cons_of_error (last : Token) {token : Token} {tokens : List Token}
    {failure : Failure} (h : token.text ≠ Keyword.stop)
    (htake : Expression.take (token :: tokens) = .error failure) :
    commands last (token :: tokens) = .error failure := by
  rw [commands, if_neg h]
  split
  next found hfound => rw [Except.error.inj (hfound.symm.trans htake)]
  next hfound => simp [hfound] at htake

/-- The first expression of a body is followed by the others. -/
theorem commands_cons_of_ok (last : Token) {token : Token} {tokens rest : List Token}
    {command : Command} (h : token.text ≠ Keyword.stop)
    (htake : Expression.take (token :: tokens) = .ok (command, rest)) :
    commands last (token :: tokens) =
      (commands last rest).map fun others => (command :: others.1, others.2) := by
  rw [commands, if_neg h]
  split
  next hfound => simp [hfound] at htake
  next found after hfound =>
    obtain ⟨rfl, rfl⟩ := Prod.mk.inj (Except.ok.inj (hfound.symm.trans htake))
    rfl

/-- The token that was taken last when the tokens run out is the last one of all. -/
theorem commandsAfter_eq (taken : Token) (tokens : List Token) :
    commandsAfter taken tokens = commands (tokens.getLast?.getD taken) tokens := by
  fun_induction commandsAfter taken tokens with
  | case1 taken => exact (commands_nil taken).symm
  | case2 taken token tokens hstop => rw [commands_cons_of_stop _ _ hstop]
  | case3 taken token tokens hstop failure htake => rw [commands_cons_of_error _ hstop htake]
  | case4 taken token tokens hstop command rest htake ih =>
    obtain ⟨init, final, htokens, hfinal⟩ := Expression.exists_last_of_take htake
    obtain ⟨_, hlast⟩ := List.getElem?_eq_some_iff.mp hfinal
    have hsame : (token :: tokens).getLast?.getD taken = rest.getLast?.getD final := by
      rw [htokens, List.getLast?_append, List.getLast?_cons]
      rfl
    rw [ih, hlast, hsame, commands_cons_of_ok _ hstop htake]

/-- A body is its expressions, with the last of the tokens to blame. -/
theorem take_cons (token : Token) (tokens : List Token) :
    take (token :: tokens) =
      if token.text = Keyword.start then
        (commands (tokens.getLast?.getD token) tokens).map fun inner => (.sequence inner.1, inner.2)
      else .error (.synthetic .missingStart) := by
  rw [take, commandsAfter_eq]

end Body

end GenomeScript

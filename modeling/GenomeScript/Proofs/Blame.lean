import GenomeScript.Proofs.Layout
import GenomeScript.Proofs.Runs
import GenomeScript.Session

/-!
# Who is blamed

A source that cannot be read as a genome fails in one of two ways. If a body does not begin with
`start`, no token is blamed. For every other fault the blamed token is one of the source, and the
failure carries the line of that token. The same holds of a line of a session that is not blank;
there the token after a complete expression can be blamed as well.

That a token of the source is blamed is the case of two equal layouts: every token is its own
twin. An expression at the very end of the tokens would blame no token, but neither a body nor a
line that is not blank begins one there.
-/

namespace GenomeScript

/-- A token as its own twin. -/
def Twin.self : Token → Twin := Twin.along id fun _ => rfl

/-- The two sides of tokens that are their own twins are those tokens. -/
theorem Twin.map_self (tokens : List Token) :
    (tokens.map self).map left = tokens ∧ (tokens.map self).map right = tokens :=
  ⟨map_left_along id _ tokens, (map_right_along id _ tokens).trans (List.map_id tokens)⟩

namespace Failure

/-- A failure that blames no token: `start` is missing, and an empty text on the first line stands in
for the token. -/
def BlamesNone (failure : Failure) : Prop :=
  failure.fault = .missingStart ∧ failure.blamed = ⟨"", 1, ⟨0, 0⟩⟩

/-- A failure with another fault that blames one of the given tokens. -/
def BlamesOneOf (tokens : List Token) (failure : Failure) : Prop :=
  failure.fault ≠ .missingStart ∧ failure.blamed ∈ tokens

/-- A failure that blames one of the given tokens or none, on the line of what it blames. -/
structure Blames (tokens : List Token) (failure : Failure) : Prop where
  line_eq : failure.line = failure.blamed.line
  none_or_one : failure.BlamesNone ∨ failure.BlamesOneOf tokens

/-- A failure for another fault than a missing `start` blames one of the tokens. -/
theorem Blames.oneOf {tokens : List Token} {failure : Failure} (h : failure.Blames tokens)
    (hstart : failure.fault ≠ .missingStart) : failure.BlamesOneOf tokens :=
  h.none_or_one.resolve_left fun hnone => hstart hnone.1

/-- Failures alike among tokens that are their own twins blame one of them, or none. -/
theorem Alike.blames {tokens : List Token} {f g : Failure} (h : Alike (tokens.map Twin.self) f g) :
    f.fault ≠ .unexpectedToken ∧ f.Blames tokens := by
  rcases h.blamed_along with ⟨rfl, _⟩ | ⟨fault, token, hinner, hmem, rfl, _⟩
  · exact ⟨nofun, rfl, .inl ⟨rfl, rfl⟩⟩
  · obtain ⟨hstart, hexpected⟩ := Fault.ne_of_isInner hinner
    exact ⟨hexpected, rfl, .inr ⟨hstart, hmem⟩⟩

end Failure

open Failure

/-- Bodies that cannot be read blame one of their tokens, or none. -/
theorem Genome.blames_of_bodiesOfTokens {tokens : List Token} {failure : Failure}
    (h : bodiesOfTokens tokens = .error failure) :
    failure.fault ≠ .unexpectedToken ∧ failure.Blames tokens := by
  have hrelated := related_bodiesOfTokens (tokens.map Twin.self)
  rw [(Twin.map_self tokens).1, (Twin.map_self tokens).2, h] at hrelated
  cases hrelated with
  | error halike => exact halike.blames

/-- Tokens that are no single expression blame one of them, if there are any. -/
theorem Expression.blames_of_ofTokens {tokens : List Token} {failure : Failure} (hne : tokens ≠ [])
    (h : ofTokens tokens = .error failure) : failure.Blames tokens := by
  rcases ofTokens_eq_error_iff.mp h with htake | ⟨command, token, rest, htake, rfl⟩
  · have hrelated := related_take (mt List.map_eq_nil_iff.mp hne : tokens.map Twin.self ≠ [])
    rw [(Twin.map_self tokens).1, (Twin.map_self tokens).2, htake] at hrelated
    cases hrelated with
    | error halike => exact halike.blames.2
  · obtain ⟨_, hrest⟩ := take_eq_ok_iff.mp htake
    have hmem : token ∈ tokens := by
      rw [← extent_append tokens, hrest]
      simp
    exact ⟨rfl, .inr ⟨nofun, hmem⟩⟩

/-- A line that holds a solid character has tokens. -/
theorem Token.scan_ne_nil {line : String} (h : ∃ c ∈ line.toList, Text.isBlank c = false) :
    scan line ≠ [] := by
  obtain ⟨c, hmem, hc⟩ := h
  obtain ⟨before, after, hline⟩ := List.append_of_mem hmem
  obtain rfl : String.ofList before ++ String.singleton c ++ String.ofList after = line := by
    rw [← String.toList_inj]
    simp [hline]
  obtain ⟨token, htoken, _⟩ := exists_mem_scan_of_not_isBlank hc
  exact List.ne_nil_of_mem htoken

/-- A line of a session that has tokens and cannot be read blames one of them, or none. -/
theorem Session.blames_of_scan_ne_nil {line : String} {failure : Failure}
    (hne : Token.scan line ≠ []) (h : commands line = .error failure) :
    failure.Blames (Token.scan line) := by
  simp only [commands] at h
  split at h
  · exact (Genome.blames_of_bodiesOfTokens h).2
  · exact Expression.blames_of_ofTokens hne (Except.map_eq_error_iff.mp h)

/-- A line of a session that cannot be read blames one of its tokens, or none, unless it is blank. -/
theorem Session.blames_of_commands {line : String} {failure : Failure}
    (hsolid : ∃ c ∈ line.toList, Text.isBlank c = false) (h : commands line = .error failure) :
    failure.Blames (Token.scan line) :=
  blames_of_scan_ne_nil (Token.scan_ne_nil hsolid) h

/-- A line of a session that blames a token with a range blames one of its tokens. -/
theorem Session.blames_of_span {line : String} {failure : Failure}
    (h : commands line = .error failure)
    (hspan : failure.blamed.span.first < failure.blamed.span.past) :
    failure.Blames (Token.scan line) ∧ failure.fault ≠ .missingStart := by
  have hsomewhere : failure.blamed ≠ ⟨"", 1, ⟨0, 0⟩⟩ := by
    intro hnowhere
    rw [hnowhere] at hspan
    exact Nat.lt_irrefl 0 hspan
  by_cases hnil : Token.scan line = []
  · -- A line without tokens is an empty expression, for which no token is blamed.
    have hempty : commands line = .error (.synthetic .emptyExpression) := by
      simp only [commands, hnil]
      rfl
    rw [hempty] at h
    rw [← Except.error.inj h] at hsomewhere
    exact absurd rfl hsomewhere
  · have hblames := blames_of_scan_ne_nil hnil h
    have hone := hblames.none_or_one.resolve_left fun hnone => hsomewhere hnone.2
    exact ⟨hblames, hone.1⟩

end GenomeScript

import GenomeScript.Proofs.Parsing
import GenomeScript.Proofs.Words

/-!
# Layout

How a script is laid out does not change what it means. Two sources with the same words are read
as the same genome, or they fail with the same fault, blamed on the tokens at one position; only
a missing `start` blames no token at all.

Both sources are read side by side. Tokens at one position are twins: they agree in their text
and may differ in their places. Every reader, given the two sides of the same twins, builds the
same commands and leaves the two sides of the same twins, or fails on the two sides of one twin.
-/

namespace GenomeScript

open Except (Related)
open Grammar (IsPlain)

/-- A token of each of two scripts, with one text. -/
structure Twin where
  left : Token
  right : Token
  text_eq : left.text = right.text

namespace Twin

/-- Twins play one role. -/
theorem role_eq (twin : Twin) : twin.left.role = twin.right.role :=
  congrArg Role.of twin.text_eq

/-- Tokens with the same texts in the same order are twins. -/
theorem exists_of_map_text {ts us : List Token} (h : ts.map Token.text = us.map Token.text) :
    ∃ twins : List Twin, twins.map left = ts ∧ twins.map right = us := by
  induction ts generalizing us with
  | nil => exact ⟨[], rfl, (List.map_eq_nil_iff.mp h.symm).symm⟩
  | cons t ts ih =>
    obtain ⟨u, us, rfl, htext, hrest⟩ := List.map_eq_cons_iff.mp h.symm
    obtain ⟨twins, rfl, rfl⟩ := ih hrest.symm
    exact ⟨⟨t, u, htext.symm⟩ :: twins, rfl, rfl⟩

section Along

variable (change : Token → Token) (hchange : ∀ token, (change token).text = token.text)

/-- A token and the same token at another place. -/
def along (token : Token) : Twin := ⟨token, change token, (hchange token).symm⟩

/-- The left sides of tokens and changed tokens are the tokens. -/
theorem map_left_along (tokens : List Token) :
    (tokens.map (along change hchange)).map left = tokens := by
  simp [along, Function.comp_def]

/-- The right sides of tokens and changed tokens are the changed tokens. -/
theorem map_right_along (tokens : List Token) :
    (tokens.map (along change hchange)).map right = tokens.map change := by
  simp [along, Function.comp_def]

end Along

end Twin

/-- Whether a fault belongs to a token in a body. A missing `start` belongs to no token, and no
token is unexpected where another expression may follow. -/
def Fault.isInner : Fault → Bool
  | .missingStart => false
  | .unexpectedToken => false
  | _ => true

/-- The faults that do not belong to a token in a body are two. -/
theorem Fault.ne_of_isInner {fault : Fault} (h : fault.isInner = true) :
    fault ≠ .missingStart ∧ fault ≠ .unexpectedToken := by
  constructor
  · intro hstart
    rw [hstart] at h
    cases h
  · intro hunexpected
    rw [hunexpected] at h
    cases h

/-- Failures with one fault, blamed on a twin, or on no token if `start` is missing. -/
inductive Failure.Alike (twins : List Twin) : Failure → Failure → Prop
  | missingStart : Alike twins (.synthetic .missingStart) (.synthetic .missingStart)
  | blame {fault : Fault} {twin : Twin} (hinner : fault.isInner = true) (hmem : twin ∈ twins) :
      Alike twins (.blame fault twin.left) (.blame fault twin.right)

/-- Failures alike among some twins are alike among more of them. -/
theorem Failure.Alike.mono {twins more : List Twin} (hsub : twins ⊆ more) (f g : Failure)
    (h : Alike twins f g) : Alike more f g := by
  cases h with
  | missingStart => exact .missingStart
  | blame hinner hmem => exact .blame hinner (hsub hmem)

/-- If a change of places makes the twins, it takes the token blamed first to the one blamed then. -/
theorem Failure.Alike.blamed_along {change : Token → Token}
    {hchange : ∀ token, (change token).text = token.text} {tokens : List Token} {f g : Failure}
    (h : Alike (tokens.map (Twin.along change hchange)) f g) :
    (f = .synthetic .missingStart ∧ g = .synthetic .missingStart) ∨
      ∃ fault token, fault.isInner = true ∧ token ∈ tokens ∧ f = .blame fault token ∧
        g = .blame fault (change token) := by
  cases h with
  | missingStart => exact .inl ⟨rfl, rfl⟩
  | blame hinner hmem =>
    obtain ⟨token, htoken, rfl⟩ := List.mem_map.mp hmem
    exact .inr ⟨_, token, hinner, htoken, rfl, rfl⟩

/-- Two readings that both fail on a twin. -/
theorem Failure.related_blame {α : Type} {S : α → α → Prop} {twins : List Twin} {twin : Twin}
    (fault : Fault) (hinner : fault.isInner = true) (hmem : twin ∈ twins) :
    Related (Alike twins) S (.error (.blame fault twin.left)) (.error (.blame fault twin.right)) :=
  .error (.blame hinner hmem)

/-- Equal results that leave the two sides of the same twins, the last ones of those given. -/
def Leaves {α : Type} (twins : List Twin) (x y : α × List Token) : Prop :=
  x.1 = y.1 ∧ ∃ later, later <:+ twins ∧ x.2 = later.map Twin.left ∧ y.2 = later.map Twin.right

namespace Token

open Failure

/-- A token that continues an expression. -/
def Continues (token : Token) : Prop :=
  token.role ≠ .delimiter ∧ token.role ≠ .foreign

variable (twin : Twin)

/-- Twins are read as the same number, or both are not. -/
theorem related_number : Related (Alike [twin]) Eq twin.left.number twin.right.number := by
  rw [number, number, twin.text_eq]
  cases Numeral.readValue twin.right.text.toList with
  | error fault => exact related_blame _ (by cases fault <;> rfl) (List.mem_singleton_self twin)
  | ok value => exact .ok rfl

/-- Twins name the same identifier, or fail with the given fault. -/
theorem related_identifierOr {fault : Fault} (hinner : fault.isInner = true) (name : List Char) :
    Related (Alike [twin]) Eq (identifierOr (.blame fault twin.left) name)
      (identifierOr (.blame fault twin.right) name) := by
  unfold identifierOr
  split
  · exact .ok rfl
  · exact related_blame _ hinner (List.mem_singleton_self twin)

/-- Twins are read as reads of the same name, or both are not. -/
theorem related_read : Related (Alike [twin]) Eq twin.left.read twin.right.read := by
  unfold read
  rw [twin.text_eq]
  split
  · exact related_identifierOr twin rfl _
  · exact related_blame _ rfl (List.mem_singleton_self twin)

/-- Twins are read as the same address, or both are not. -/
theorem related_address : Related (Alike [twin]) Eq twin.left.address twin.right.address := by
  unfold address
  rw [twin.text_eq]
  split
  · exact related_identifierOr twin rfl _
  · exact related_blame _ rfl (List.mem_singleton_self twin)

/-- Twins are read as the same operator, or both are not. -/
theorem related_operator : Related (Alike [twin]) Eq twin.left.operator twin.right.operator := by
  unfold operator
  rw [twin.text_eq]
  split
  · exact .ok rfl
  · exact related_blame _ rfl (List.mem_singleton_self twin)

end Token

namespace Stack

open Failure

/-- Twins nest to the same depth, or both too deeply. -/
theorem related_nest (twin : Twin) (lower upper : Entry) :
    Related (Alike [twin]) Eq (nest twin.left lower upper) (nest twin.right lower upper) := by
  unfold nest
  dsimp only
  split
  · exact related_blame _ rfl (List.mem_singleton_self twin)
  · exact .ok rfl

/-- Twins combine the same commands, or fail for the same reason. -/
theorem related_combine (twin : Twin) (join : Command → Command → Command) (stack : Stack) :
    Related (Alike [twin]) Eq (combine twin.left join stack) (combine twin.right join stack) := by
  unfold combine
  split
  · refine (related_nest twin _ _).bind ?_
    rintro depth _ - rfl
    exact .ok rfl
  · exact related_blame _ rfl (List.mem_singleton_self twin)

/-- Twins that continue an expression change a stack alike. -/
theorem related_place (stack : Stack) {twin : Twin} (h : twin.left.Continues) :
    Related (Alike [twin]) Eq (stack.place twin.left) (stack.place twin.right) := by
  unfold place
  rw [← twin.role_eq]
  cases hrole : twin.left.role with
  | number => exact (Token.related_number twin).map fun _ _ heq => by rw [heq]
  | read => exact (Token.related_read twin).map fun _ _ heq => by rw [heq]
  | address => exact (Token.related_address twin).map fun _ _ heq => by rw [heq]
  | store => exact related_combine twin _ stack
  | operator =>
    refine (Token.related_operator twin).bind ?_
    rintro op _ - rfl
    exact related_combine twin _ stack
  | delimiter => exact absurd hrole h.1
  | foreign => exact absurd hrole h.2

/-- Runs of such twins change a stack alike, twin by twin. -/
theorem related_placeAll (stack : Stack) {twins : List Twin}
    (h : ∀ twin ∈ twins, twin.left.Continues) :
    Related (Alike twins) Eq (stack.placeAll (twins.map Twin.left))
      (stack.placeAll (twins.map Twin.right)) := by
  induction twins generalizing stack with
  | nil => exact .ok rfl
  | cons twin twins ih =>
    rw [List.map_cons, List.map_cons, placeAll_cons, placeAll_cons]
    have hfirst : Related (Alike (twin :: twins)) Eq (stack.place twin.left) (stack.place twin.right) :=
      (related_place stack (h twin (by simp))).mono (Alike.mono (by simp))
    refine hfirst.bind ?_
    rintro next _ - rfl
    exact (ih next fun t ht => h t (by simp [ht])).mono (Alike.mono (by simp))

/-- A token that is placed leaves a command on the stack. -/
theorem place_ne_ok_nil (stack : Stack) (token : Token) : stack.place token ≠ .ok [] := by
  intro h
  rcases word_of_place h with ⟨leaf, hword⟩ | ⟨op, hword⟩ | hstore
  · rw [place_of_leaf stack hword] at h
    cases h
  · rw [place_of_operator stack hword] at h
    obtain ⟨_, _, _, _, _, hnil⟩ := combine_eq_ok_iff.mp h
    cases hnil
  · rw [place_of_store stack hstore] at h
    obtain ⟨_, _, _, _, _, hnil⟩ := combine_eq_ok_iff.mp h
    cases hnil

/-- The stack is empty only before the first token. -/
theorem eq_nil_of_placeAll {stack : Stack} {tokens : List Token}
    (h : stack.placeAll tokens = .ok []) : tokens = [] := by
  induction tokens generalizing stack with
  | nil => rfl
  | cons token tokens ih =>
    rw [placeAll_cons] at h
    obtain ⟨next, hplace, hrest⟩ := Except.bind_eq_ok_iff.mp h
    obtain rfl := ih hrest
    obtain rfl := Except.ok.inj hrest
    exact absurd hplace (place_ne_ok_nil stack token)

end Stack

namespace Expression

open Failure

/-- An expression takes the same twins on every side that keeps their roles. -/
theorem exists_extent_twins (twins : List Twin) :
    ∃ own rest, twins = own ++ rest ∧ (∀ twin ∈ own, twin.left.Continues) ∧
      ∀ side : Twin → Token, (∀ twin, (side twin).role = twin.left.role) →
        extent (twins.map side) = (own.map side, rest.map side) := by
  induction twins with
  | nil => exact ⟨[], [], rfl, by simp, fun _ _ => rfl⟩
  | cons twin twins ih =>
    obtain ⟨own, rest, rfl, hown, hextent⟩ := ih
    by_cases hends : twin.left.role = .delimiter ∨ twin.left.role = .foreign
    · refine ⟨[], twin :: (own ++ rest), rfl, by simp, ?_⟩
      intro side hside
      exact extent_of_ends (ends_cons.mpr (hside twin ▸ hends))
    · have hfirst : twin.left.Continues := not_or.mp hends
      -- A `store` is taken as the last token, and any other word goes on.
      by_cases hstore : twin.left.role = .store
      · refine ⟨[twin], own ++ rest, rfl, by simpa using hfirst, ?_⟩
        intro side hside
        exact extent_cons_of_store _ ((hside twin).trans hstore)
      · have hplain : IsPlain twin.left.role := by
          revert hends hstore
          cases twin.left.role <;> simp [IsPlain]
        refine ⟨twin :: own, rest, rfl, by simpa using ⟨hfirst, hown⟩, ?_⟩
        intro side hside
        rw [List.map_cons, extent_cons_of_isPlain _ (hside twin ▸ hplain), hextent side hside,
          List.map_cons]

/-- What an expression leaves on the stack decides its outcome. An empty stack blames the twin
that it stops at, and a full one the last twin that it took. -/
theorem related_conclude {own rest : List Twin} {stack : Stack} (hne : own ++ rest ≠ [])
    (hempty : stack = [] ↔ own = []) :
    Related (Alike (own ++ rest)) (Leaves (own ++ rest))
      (conclude (own.map Twin.left) (rest.map Twin.left) stack)
      (conclude (own.map Twin.right) (rest.map Twin.right) stack) := by
  match stack with
  | [command] => exact .ok ⟨rfl, rest, List.suffix_append own rest, rfl, rfl⟩
  | [] =>
    obtain rfl : own = [] := hempty.mp rfl
    obtain ⟨twin, rest, rfl⟩ := List.exists_cons_of_ne_nil hne
    exact related_blame .emptyExpression rfl List.mem_cons_self
  | top :: below :: others =>
    have hown : own ≠ [] := fun h => List.cons_ne_nil _ _ (hempty.mpr h)
    obtain ⟨init, last, rfl⟩ := List.eq_nil_or_concat own |>.resolve_left hown
    have hmem : last ∈ init ++ [last] ++ rest := by simp
    simpa [conclude, at?] using
      related_blame (.leftoverOperands (top :: below :: others).length) rfl hmem

/-- One expression of two scripts is read alike, if there are tokens. -/
theorem related_take {twins : List Twin} (hne : twins ≠ []) :
    Related (Alike twins) (Leaves twins) (take (twins.map Twin.left))
      (take (twins.map Twin.right)) := by
  obtain ⟨own, rest, rfl, hown, hextent⟩ := exists_extent_twins twins
  have hleft := hextent Twin.left fun _ => rfl
  have hright := hextent Twin.right fun twin => twin.role_eq.symm
  have hplaced : Related (Alike (own ++ rest)) Eq (Stack.placeAll [] (own.map Twin.left))
      (Stack.placeAll [] (own.map Twin.right)) :=
    (Stack.related_placeAll [] hown).mono (Alike.mono (List.subset_append_left own rest))
  simp only [take, hleft, hright]
  refine hplaced.bind ?_
  rintro stack _ hstack rfl
  refine related_conclude hne ⟨?_, ?_⟩
  · rintro rfl
    exact List.map_eq_nil_iff.mp (Stack.eq_nil_of_placeAll hstack)
  · rintro rfl
    exact (Except.ok.inj hstack).symm

end Expression

namespace Body

open Failure

/-- The expressions of a body are read alike. If the tokens run out, twins are blamed. -/
theorem related_commands (last : Twin) (twins : List Twin) :
    Related (Alike (last :: twins)) (Leaves twins) (commands last.left (twins.map Twin.left))
      (commands last.right (twins.map Twin.right)) := by
  -- Each expression leaves fewer twins, but not always one fewer, so the induction is on their number.
  induction hn : twins.length using Nat.strongRecOn generalizing twins with
  | ind n ih =>
    cases twins with
    | nil =>
      simp only [List.map_nil, commands_nil]
      exact related_blame .missingStop rfl List.mem_cons_self
    | cons twin twins =>
      by_cases hstop : twin.left.text = Keyword.stop
      · have hright : twin.right.text = Keyword.stop := twin.text_eq ▸ hstop
        rw [List.map_cons, List.map_cons, commands_cons_of_stop _ _ hstop,
          commands_cons_of_stop _ _ hright]
        exact .ok ⟨rfl, twins, List.suffix_cons twin twins, rfl, rfl⟩
      · have hright : twin.right.text ≠ Keyword.stop := twin.text_eq ▸ hstop
        have htake := Expression.related_take (List.cons_ne_nil twin twins)
        rw [List.map_cons, List.map_cons] at htake ⊢
        rcases htake.error_or_ok with ⟨f, g, hf, hg, halike⟩ | ⟨⟨c, _⟩, ⟨_, _⟩, hl, hr, hleaves⟩
        · rw [commands_cons_of_error _ hstop hf, commands_cons_of_error _ hright hg]
          exact .error (halike.mono (List.subset_cons_self last _) f g)
        · obtain ⟨rfl, later, hsuffix, rfl, rfl⟩ := hleaves
          have hshort : later.length < n := by
            simpa [← hn] using Expression.length_rest_lt hl
          have hsub : last :: later ⊆ last :: twin :: twins := List.cons_subset_cons _ hsuffix.subset
          rw [commands_cons_of_ok _ hstop hl, commands_cons_of_ok _ hright hr]
          refine ((ih _ hshort later rfl).mono (Alike.mono hsub)).map ?_
          rintro ⟨others, _⟩ ⟨_, _⟩ ⟨rfl, final, hfinal, rfl, rfl⟩
          exact ⟨rfl, final, hfinal.trans hsuffix, rfl, rfl⟩

/-- One body of two scripts is read alike, if there are tokens. -/
theorem related_take {twins : List Twin} (hne : twins ≠ []) :
    Related (Alike twins) (Leaves twins) (take (twins.map Twin.left))
      (take (twins.map Twin.right)) := by
  obtain ⟨first, others, rfl⟩ := List.exists_cons_of_ne_nil hne
  rw [List.map_cons, List.map_cons, take_cons, take_cons, ← first.text_eq]
  split
  -- The token blamed for a missing `stop` is the last one, and `start` itself if it stands alone.
  · have hlast : others.getLast?.getD first ∈ first :: others := by
      cases hothers : others.getLast? with
      | none => exact List.mem_cons_self
      | some last => exact List.mem_cons_of_mem _ (List.mem_of_getLast? hothers)
    have hcommands := related_commands (others.getLast?.getD first) others
    rw [List.getLast?_map, List.getLast?_map, Option.getD_map, Option.getD_map]
    refine (hcommands.mono (Alike.mono ?_)).map ?_
    · exact List.cons_subset.mpr ⟨hlast, List.subset_cons_self first others⟩
    · rintro ⟨inner, _⟩ ⟨_, _⟩ ⟨rfl, later, hsuffix, rfl, rfl⟩
      exact ⟨rfl, later, hsuffix.trans (List.suffix_cons first others), rfl, rfl⟩
  · exact .error .missingStart

end Body

namespace Genome

open Failure

/-- The bodies of two scripts are read alike. -/
theorem related_bodiesOfTokens (twins : List Twin) :
    Related (Alike twins) Eq (bodiesOfTokens (twins.map Twin.left))
      (bodiesOfTokens (twins.map Twin.right)) := by
  induction hn : twins.length using Nat.strongRecOn generalizing twins with
  | ind n ih =>
    cases twins with
    | nil =>
      simp only [List.map_nil, bodiesOfTokens_nil]
      exact .ok rfl
    | cons twin twins =>
      have htake := Body.related_take (List.cons_ne_nil twin twins)
      rw [List.map_cons, List.map_cons] at htake ⊢
      rcases htake.error_or_ok with ⟨f, g, hf, hg, halike⟩ | ⟨⟨body, _⟩, ⟨_, _⟩, hl, hr, hleaves⟩
      · rw [bodiesOfTokens_cons_of_error hf, bodiesOfTokens_cons_of_error hg]
        exact .error halike
      · obtain ⟨rfl, later, hsuffix, rfl, rfl⟩ := hleaves
        have hshort : later.length < n := by
          simpa [← hn] using Body.length_rest_lt hl
        rw [bodiesOfTokens_cons_of_ok hl, bodiesOfTokens_cons_of_ok hr]
        refine ((ih _ hshort later rfl).mono (Alike.mono hsuffix.subset)).map ?_
        rintro bodies _ rfl
        rfl

/-- Two scripts are read alike. -/
theorem related_ofTokens (twins : List Twin) :
    Related (Alike twins) Eq (ofTokens (twins.map Twin.left)) (ofTokens (twins.map Twin.right)) := by
  refine (related_bodiesOfTokens twins).map ?_
  rintro bodies _ rfl
  rfl

/-- Sources with the same words are read as the same genome, or they fail with the same fault and
blame no token both, or the tokens at one position. -/
theorem ofSource_alike_of_words_eq {source other : String}
    (h : Token.words source = Token.words other) :
    (∃ genome, ofSource source = .ok genome ∧ ofSource other = .ok genome) ∨
      ∃ f g, ofSource source = .error f ∧ ofSource other = .error g ∧ f.fault = g.fault ∧
        (f.blamed = .nowhere ∧ g.blamed = .nowhere ∨
          ∃ i : Nat, (Token.scan source)[i]? = some f.blamed ∧
            (Token.scan other)[i]? = some g.blamed) := by
  obtain ⟨twins, hsource, hother⟩ := Twin.exists_of_map_text h
  have hrelated := related_ofTokens twins
  rw [hsource, hother] at hrelated
  rcases hrelated.error_or_ok with ⟨f, g, hf, hg, halike⟩ | ⟨genome, _, hl, hr, rfl⟩
  · refine .inr ⟨f, g, hf, hg, ?_⟩
    cases halike with
    | missingStart => exact ⟨rfl, .inl ⟨rfl, rfl⟩⟩
    | blame hinner hmem =>
      obtain ⟨i, hi⟩ := List.getElem?_of_mem hmem
      refine ⟨rfl, .inr ⟨i, ?_, ?_⟩⟩
      · rw [← hsource, List.getElem?_map, hi]
        rfl
      · rw [← hother, List.getElem?_map, hi]
        rfl
  · exact .inl ⟨genome, hl, hr⟩

/-- A number too many is blamed at its own place in each of two layouts. -/
theorem ofSource_alike_of_words_eq_leftover :
    Token.words "start 1 2 stop" = Token.words "start\n1\r\n\t2\u2003stop" ∧
      ofSource "start 1 2 stop" = .error (.blame (.leftoverOperands 2) ⟨"2", 1, ⟨8, 9⟩⟩) ∧
      ofSource "start\n1\r\n\t2\u2003stop" = .error (.blame (.leftoverOperands 2) ⟨"2", 3, ⟨10, 11⟩⟩) ∧
      ∃ i : Nat, (Token.scan "start 1 2 stop")[i]? = some ⟨"2", 1, ⟨8, 9⟩⟩ ∧
        (Token.scan "start\n1\r\n\t2\u2003stop")[i]? = some ⟨"2", 3, ⟨10, 11⟩⟩ := by
  have hwords : Token.words "start 1 2 stop" = Token.words "start\n1\r\n\t2\u2003stop" := by
    decide +kernel
  have hf : ofSource "start 1 2 stop" = .error (.blame (.leftoverOperands 2) ⟨"2", 1, ⟨8, 9⟩⟩) := by
    decide +kernel
  have hg : ofSource "start\n1\r\n\t2\u2003stop" =
      .error (.blame (.leftoverOperands 2) ⟨"2", 3, ⟨10, 11⟩⟩) := by decide +kernel
  refine ⟨hwords, hf, hg, ?_⟩
  rcases ofSource_alike_of_words_eq hwords with ⟨genome, hl, _⟩ | ⟨f, g, hf', hg', _, hblamed⟩
  · cases hf.symm.trans hl
  · obtain rfl := Except.error.inj (hf.symm.trans hf')
    obtain rfl := Except.error.inj (hg.symm.trans hg')
    exact hblamed.resolve_left fun h => absurd h.1 (by decide)

end Genome

end GenomeScript

import GenomeScript.Expression

/-!
# Bodies and genomes

A body is the expressions between `start` and `stop`, read as one sequence. Reading ends with the
first `stop` that no expression takes. The token that was taken last is kept on the way, to be blamed
if the tokens run out before `stop`.

A genome is a list of bodies. A script is read as bodies, one after the other, until its tokens are
used up; the script without tokens is the genome without bodies. A cycle runs each body once, in
order, against one store.
-/

namespace GenomeScript

/-! ## Bodies -/

namespace Body

/-- Read expressions up to the end of the body, keeping the token that was taken last. If the tokens
run out, it is blamed. -/
def commandsAfter (taken : Token) : List Token → Except Failure (List Command × List Token)
  | [] => .error (.blame .missingStop taken)
  | token :: tokens =>
    if token.text = Keyword.stop then .ok ([], tokens)
    else
      match _taken : Expression.take (token :: tokens) with
      | .error failure => .error failure
      | .ok (command, rest) =>
        (commandsAfter (token :: tokens)[(token :: tokens).length - rest.length - 1] rest).map
          fun (others, rest) => (command :: others, rest)
termination_by tokens => tokens.length
decreasing_by exact Expression.length_rest_lt _taken

/-- Read the body at the front of tokens, giving the rest of them too. -/
def take : List Token → Except Failure (Command × List Token)
  | [] => .error (.synthetic .missingStart)
  | token :: tokens =>
    if token.text = Keyword.start then
      (commandsAfter token tokens).map fun (inner, rest) => (.sequence inner, rest)
    else .error (.synthetic .missingStart)

/-- What remains after the expressions of a body is shorter than what they were read from. -/
theorem length_commandsAfter_lt {taken : Token} {tokens : List Token} {inner : List Command}
    {rest : List Token} (h : commandsAfter taken tokens = .ok (inner, rest)) :
    rest.length < tokens.length := by
  fun_induction commandsAfter taken tokens generalizing inner rest with
  | case1 => simp at h
  | case2 taken token tokens hstop =>
    simp only [Except.ok.injEq, Prod.mk.injEq] at h
    simp [← h.2]
  | case3 => simp at h
  | case4 taken token tokens _ command rest' htake ih =>
    have hshort := Expression.length_rest_lt htake
    generalize commandsAfter _ rest' = later at ih h
    cases later with
    | error failure => simp [Except.map] at h
    | ok result =>
      obtain ⟨others, final⟩ := result
      simp only [Except.map, Except.ok.injEq, Prod.mk.injEq] at h
      have := ih rfl
      rw [h.2] at this
      omega

/-- A body takes at least one token. -/
theorem length_rest_lt {tokens rest : List Token} {body : Command}
    (h : take tokens = .ok (body, rest)) : rest.length < tokens.length := by
  cases tokens with
  | nil => simp [take] at h
  | cons token tokens =>
    rw [take] at h
    split at h
    · cases hinner : commandsAfter token tokens with
      | error failure => simp [hinner, Except.map] at h
      | ok result =>
        obtain ⟨inner, final⟩ := result
        simp only [hinner, Except.map, Except.ok.injEq, Prod.mk.injEq] at h
        have := length_commandsAfter_lt hinner
        rw [h.2] at this
        simp only [List.length_cons]
        omega
    · simp at h

end Body

/-! ## Genomes -/

/-- The bodies of a script. -/
structure Genome where
  bodies : List Command
deriving DecidableEq

namespace Genome

/-- Whether there are no bodies. -/
def isEmpty (genome : Genome) : Bool := genome.bodies.isEmpty

/-- The store after one cycle. -/
def run (genome : Genome) (store : Store) : Store :=
  genome.bodies.foldl (fun store body => (body.run store).2) store

/-- The store after a number of cycles. -/
def runCycles (genome : Genome) : Nat → Store → Store
  | 0, store => store
  | cycles + 1, store => genome.runCycles cycles (genome.run store)

/-- A genome without bodies changes nothing. -/
@[simp] theorem run_nil (store : Store) : (Genome.mk []).run store = store := rfl

/-- The first body runs before the others. -/
@[simp] theorem run_cons (body : Command) (bodies : List Command) (store : Store) :
    (Genome.mk (body :: bodies)).run store = (Genome.mk bodies).run (body.run store).2 := rfl

/-- Bodies in two parts run one part after the other. -/
theorem run_append (xs ys : List Command) (store : Store) :
    (Genome.mk (xs ++ ys)).run store = (Genome.mk ys).run ((Genome.mk xs).run store) := by
  simp [run]

/-- The genome as text: a line for each body. -/
def display (genome : Genome) : String :=
  String.join (genome.bodies.map fun body => body.display ++ "\n")

/-! ## Genomes from scripts -/

/-- Read tokens as bodies. -/
def bodiesOfTokens : List Token → Except Failure (List Command)
  | [] => .ok []
  | token :: tokens =>
    match _taken : Body.take (token :: tokens) with
    | .error failure => .error failure
    | .ok (body, rest) => (bodiesOfTokens rest).map (body :: ·)
termination_by tokens => tokens.length
decreasing_by exact Body.length_rest_lt _taken

/-- No tokens make no bodies. -/
@[simp] theorem bodiesOfTokens_nil : bodiesOfTokens [] = .ok [] := by
  rw [bodiesOfTokens]

/-- A genome fails with the first body that fails. -/
theorem bodiesOfTokens_cons_of_error {token : Token} {tokens : List Token} {failure : Failure}
    (htake : Body.take (token :: tokens) = .error failure) :
    bodiesOfTokens (token :: tokens) = .error failure := by
  rw [bodiesOfTokens]
  split
  next found hfound => rw [Except.error.inj (hfound.symm.trans htake)]
  next hfound => simp [hfound] at htake

/-- The first body is followed by the others. -/
theorem bodiesOfTokens_cons_of_ok {token : Token} {tokens rest : List Token} {body : Command}
    (htake : Body.take (token :: tokens) = .ok (body, rest)) :
    bodiesOfTokens (token :: tokens) = (bodiesOfTokens rest).map (body :: ·) := by
  rw [bodiesOfTokens]
  split
  next hfound => simp [hfound] at htake
  next found after hfound =>
    obtain ⟨rfl, rfl⟩ := Prod.mk.inj (Except.ok.inj (hfound.symm.trans htake))
    rfl

/-- Read tokens as a genome. -/
def ofTokens (tokens : List Token) : Except Failure Genome :=
  (bodiesOfTokens tokens).map Genome.mk

/-- Read a source as a genome. -/
def ofSource (source : String) : Except Failure Genome :=
  ofTokens (Token.scan source)

end Genome

end GenomeScript

import GenomeScript.Genome
import GenomeScript.Report

/-!
# Sessions

A session is a dialogue over one store. A line is a directive, or bodies if its first token is
`start`, or else a single expression. What is read is run at once; a line that cannot be read leaves
the store alone. The transcript of a session is the text for the output and the text for the errors,
in the order of the lines.
-/

namespace GenomeScript

namespace Session

/-- A request to the session itself. -/
inductive Directive where
  | vars
  | clear
deriving DecidableEq, Repr

/-- The directive that a line spells. -/
def Directive.ofLine? (line : String) : Option Directive :=
  if line = ":vars" then some .vars
  else if line = ":clear" then some .clear
  else none

/-- What a directive prints, and the store after it. -/
def Directive.run : Directive → Store → String × Store
  | .vars, store => (store.display, store)
  | .clear, _ => ("", .empty)

/-- The commands of a line. -/
def commands (line : String) : Except Failure (List Command) :=
  let tokens := Token.scan line
  if tokens.head?.map Token.text = some Keyword.start then Genome.bodiesOfTokens tokens
  else (Expression.ofTokens tokens).map fun command => [command]

/-- Run commands in order, keeping the value of each. -/
def runAll : List Command → Store → List (Command × Value) × Store
  | [], store => ([], store)
  | command :: others, store =>
    let (value, store) := command.run store
    let (results, store) := runAll others store
    ((command, value) :: results, store)

/-- What a session answers to a line. -/
inductive Reply where
  | printed (text : String)
  | ran (results : List (Command × Value))
  | failed (failure : Failure)

/-- Read a line as commands and run them. -/
def evaluate (line : String) (store : Store) : Reply × Store :=
  match commands line with
  | .error failure => (.failed failure, store)
  | .ok found =>
    let (results, store) := runAll found store
    (.ran results, store)

/-- Answer a line that is not blank. A directive is known by the line without the blanks around it,
and anything else is read from the line as it stands. -/
def answer (bare line : String) (store : Store) : Reply × Store :=
  match Directive.ofLine? bare with
  | some directive =>
    let (text, store) := directive.run store
    (.printed text, store)
  | none => evaluate line store

/-- Answer a typed line; a blank one gets no answer. -/
def answerTyped? (line : String) (store : Store) : Option Reply × Store :=
  let bare := Text.trimmed line
  if bare = "" then (none, store)
  else
    let (reply, store) := answer bare line store
    (some reply, store)

end Session

/-! ## Transcripts -/

/-- The text written to the output and to the errors. -/
structure Transcript where
  output : String := ""
  errors : String := ""
deriving DecidableEq, Repr

namespace Transcript

/-- One transcript and then another. -/
def append (first second : Transcript) : Transcript :=
  ⟨first.output ++ second.output, first.errors ++ second.errors⟩

instance : Append Transcript := ⟨append⟩

/-- What a session writes for a reply to a line. With `showTree` each command is shown too. -/
def ofReply (canvas : Canvas) (showTree : Bool) (line : String) : Session.Reply → Transcript
  | .printed text => { output := text }
  | .failed failure => { errors := Diagnostic.report canvas line "repl" failure }
  | .ran results =>
    let trees := results.map fun result => canvas.paint .dim result.1.display ++ "\n"
    let last := (results.getLast?.map Prod.snd).getD 0
    { output := (if showTree then String.join trees else "") ++
        canvas.paint .green (Numeral.render last) ++ "\n" }

/-- What a session writes for a typed line, and the store after it. -/
def ofLine (canvas : Canvas) (showTree : Bool) (line : String) (store : Store) :
    Transcript × Store :=
  let (reply?, store) := Session.answerTyped? line store
  ((reply?.map (ofReply canvas showTree line)).getD {}, store)

/-- What a session writes for typed lines, and the store after them. -/
def ofLines (canvas : Canvas) (showTree : Bool) : List String → Store → Transcript × Store
  | [], store => ({}, store)
  | line :: lines, store =>
    let (first, store) := ofLine canvas showTree line store
    let (others, store) := ofLines canvas showTree lines store
    (first ++ others, store)

@[simp] theorem output_append (first second : Transcript) :
    (first ++ second).output = first.output ++ second.output := rfl

/-- The first line is answered before the others. -/
theorem ofLines_cons (canvas : Canvas) (showTree : Bool) (line : String) (lines : List String)
    (store : Store) :
    ofLines canvas showTree (line :: lines) store =
      ((ofLine canvas showTree line store).1 ++
          (ofLines canvas showTree lines (ofLine canvas showTree line store).2).1,
        (ofLines canvas showTree lines (ofLine canvas showTree line store).2).2) := by
  rw [ofLines]

end Transcript

end GenomeScript
